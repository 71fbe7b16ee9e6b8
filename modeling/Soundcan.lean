import Soundcan.Lib.Bytes
import Soundcan.Lib.Transition
import Soundcan.Lib.Ownership
import Soundcan.Lib.Fifo
import Soundcan.Lib.Framing
import Soundcan.Lv2.Atom
import Soundcan.Lph.Ports
import Soundcan.Lph.AtomInput
import Soundcan.Lph.AtomOutput
import Soundcan.Lph.OutputWalk
import Soundcan.Lph.Timing
import Soundcan.Lph.PortSetup
import Soundcan.Setbfree.Plugin
import Soundcan.Setbfree.ValidMidi
import Soundcan.Setbfree.Converge
import Soundcan.Setbfree.Burst
import Soundcan.Ui.Parameter
import Soundcan.Galv.Comm
import Soundcan.Galv.Layout
import Soundcan.Galv.Adequacy
import Soundcan.Galv.CreatePorts
import Soundcan.Galv.Teardown
import Soundcan.Galv.Evbuf
import Soundcan.Galv.Process
import Soundcan.Galv.Pause
import Soundcan.Galv.Restore
import Soundcan.Galv.Delivery
import Soundcan.Galv.Transport
import Soundcan.Galv.Traversal
import Soundcan.Galv.Capacity
import Soundcan.Lib.MessageQueue
import Soundcan.Ui.MidiMq
import Soundcan.Ui.StartOrder
import Soundcan.Ui.Shown
import Soundcan.Lib.CString
import Soundcan.Lib.Interner
import Soundcan.Galv.Symap
import Soundcan.Lph.UriTable
import Soundcan.Galv.Worker
import Soundcan.Galv.Relaunch
import Soundcan.Lib.Json
import Soundcan.Lib.CText
import Soundcan.FluidUi.Controls
import Soundcan.FluidUi.Buffers
import Soundcan.FluidUi.Listing
import Soundcan.FluidUi.Server
import Soundcan.Lib.Regex
import Soundcan.Lib.Hash
import Soundcan.Rpi.Sysconf
import Soundcan.Rpi.Honours
import Soundcan.Lib.Path
import Soundcan.Lib.GoString
import Soundcan.Ui.Fluidsynth
import Soundcan.Ui.Reload
import Soundcan.Ui.FontListing
import Soundcan.Ui.OneCommand
import Soundcan.FluidUi.TcpClient
import Soundcan.FluidUi.Instrument
import Soundcan.FluidUi.Files
import Soundcan.Galv.StateRequest
import Soundcan.Lib.Replaceable
import Soundcan.Galv.BufferSize
import Soundcan.Lib.Loop
import Soundcan.Galv.OutputEvents
import Soundcan.Galv.Latency
import Soundcan.Galv.Settings
import Soundcan.Galv.StateWorker
import Soundcan.Sfizz.Streaming
import Soundcan.Sfizz.Preload
import Soundcan.Sfizz.Unused
import Soundcan.Sfizz.LoadingJob
import Soundcan.Sfizz.Background
import Soundcan.Sfizz.Promises
import Soundcan.Lph.Bridge
import Soundcan.Ui.ToPlugin
import Soundcan.Galv.JackMidi
import Soundcan.Setbfree.InJalv
import Soundcan.Setbfree.InLph
import Soundcan.Rpi.Rewrite
import Soundcan.Lib.Scanf
import Soundcan.Galv.Console
import Soundcan.Galv.CreateControls
import Soundcan.Galv.InitialControls
import Soundcan.Galv.Reports
import Soundcan.Lib.FileTree
import Soundcan.Sfizz.CheckSample
