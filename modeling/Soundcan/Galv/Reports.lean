import Soundcan.Galv.Layout

/-!
# What the process thread reports

Behind the plugin's run `process_cb` goes over the output ports and writes to `plugin_to_ui`: a
change of the latency, the events for a UI and, every so many frames, the control outputs. The
number of these updates is bounded from both sides by the frames (`updates_rate`). The UI has the
backend recompute the latencies when it reads of a change, and the backend takes the latency that
the plugin has then: as long as no such message is refused, the latencies are those of the plugin
once nothing is under way (`latency_settles`).
-/

namespace Soundcan.Galv

open Framing

/-! ## Updates -/

/-- The end of `jalv_run`: whether it is time to send updates, and `pending_frames`. -/
def jalvRunUpdates (updateFrames pendingFrames nframes : UInt32) : Bool × UInt32 :=
  let pendingFrames := pendingFrames + nframes
  if updateFrames ≠ 0 ∧ pendingFrames > updateFrames then (true, 0) else (false, pendingFrames)

/-- The number of updates over some cycles, and `pending_frames` behind them. -/
def updates (updateFrames : UInt32) (cycles : List UInt32) : Nat × UInt32 :=
  cycles.foldl
    (fun s nframes =>
      let run := jalvRunUpdates updateFrames s.2 nframes
      (s.1 + run.1.toNat, run.2))
    (0, 0)

/-- The frames of some cycles. -/
def totalFrames (cycles : List UInt32) : Nat := (cycles.map UInt32.toNat).sum

/-- Without `update_frames` none is sent. -/
theorem updates_zero (cycles : List UInt32) : (updates 0 cycles).1 = 0 := by
  induction cycles using List.reverseRecOn with
  | nil => rfl
  | append_singleton cycles nframes ih =>
      have hstep : (updates 0 (cycles ++ [nframes])).1 = (updates 0 cycles).1 + 0 := by
        rw [updates, List.foldl_append]
        rfl
      rw [hstep, ih]

/-- Between two updates there are more frames than `update_frames`, and not more than a cycle
more. -/
theorem updates_bounds {updateFrames : UInt32} (hupdate : updateFrames ≠ 0) {block : Nat}
    (hblock : updateFrames.toNat + block < 2 ^ 32) {cycles : List UInt32}
    (hcycles : ∀ nframes ∈ cycles, nframes.toNat ≤ block) :
    (updates updateFrames cycles).1 * (updateFrames.toNat + 1) ≤ totalFrames cycles ∧
    totalFrames cycles ≤
      (updates updateFrames cycles).1 * (updateFrames.toNat + block) + updateFrames.toNat := by
  suffices hinv : (updates updateFrames cycles).2.toNat ≤ updateFrames.toNat ∧
      (updates updateFrames cycles).1 * (updateFrames.toNat + 1) +
        (updates updateFrames cycles).2.toNat ≤ totalFrames cycles ∧
      totalFrames cycles ≤ (updates updateFrames cycles).1 * (updateFrames.toNat + block) +
        (updates updateFrames cycles).2.toNat by
    omega
  induction cycles using List.reverseRecOn with
  | nil => exact ⟨Nat.zero_le _, by simp [updates, totalFrames], by simp [updates, totalFrames]⟩
  | append_singleton cycles nframes ih =>
      obtain ⟨hpending, hlower, hupper⟩ :=
        ih fun n hn => hcycles n (List.mem_append_left _ hn)
      have hlast := hcycles nframes (List.mem_append_right _ List.mem_cons_self)
      have htotal : totalFrames (cycles ++ [nframes]) = totalFrames cycles + nframes.toNat := by
        simp [totalFrames]
      have hstep : updates updateFrames (cycles ++ [nframes]) =
          ((updates updateFrames cycles).1 +
            (jalvRunUpdates updateFrames (updates updateFrames cycles).2 nframes).1.toNat,
            (jalvRunUpdates updateFrames (updates updateFrames cycles).2 nframes).2) := by
        rw [updates, List.foldl_append]
        rfl
      rw [hstep, htotal]
      generalize updates updateFrames cycles = before at hpending hlower hupper ⊢
      obtain ⟨count, pending⟩ := before
      have hsum : (pending + nframes).toNat = pending.toNat + nframes.toNat := by
        rw [UInt32.toNat_add, Nat.mod_eq_of_lt (by simp only at hpending; omega)]
      simp only [jalvRunUpdates] at *
      split
      next hgt =>
        have hgt' : updateFrames.toNat < (pending + nframes).toNat :=
          UInt32.lt_iff_toNat_lt.1 hgt.2
        simp only [Bool.toNat_true, UInt32.toNat_zero, Nat.add_mul, Nat.one_mul]
        omega
      next hle =>
        have hle' : (pending + nframes).toNat ≤ updateFrames.toNat :=
          Nat.not_lt.1 fun hlt => hle ⟨hupdate, UInt32.lt_iff_toNat_lt.2 hlt⟩
        simp only [Bool.toNat_false, Nat.add_zero]
        omega

/-- So many updates are sent for so many frames: none without `update_frames`, and else, as long as
`update_frames` and a cycle stay within 32 bits, one for each `update_frames` or a cycle more. -/
theorem updates_rate (updateFrames : UInt32) (cycles : List UInt32) :
    (updateFrames = 0 → (updates updateFrames cycles).1 = 0) ∧
    (updateFrames ≠ 0 → ∀ block, updateFrames.toNat + block < 2 ^ 32 →
      (∀ nframes ∈ cycles, nframes.toNat ≤ block) →
      (updates updateFrames cycles).1 * (updateFrames.toNat + 1) ≤ totalFrames cycles ∧
      totalFrames cycles ≤
        (updates updateFrames cycles).1 * (updateFrames.toNat + block) + updateFrames.toNat) := by
  refine ⟨?_, fun hupdate block hblock hcycles => updates_bounds hupdate hblock hcycles⟩
  rintro rfl
  exact updates_zero cycles

/-- Cycles of 256 frames, with an update every 1024 frames or a little more. -/
theorem updates_rate_blocks :
    (updates 0 (List.replicate 12 256)).1 = 0 ∧
    (updates 1024 (List.replicate 12 256)).1 * 1025 ≤ 3072 ∧
    3072 ≤ (updates 1024 (List.replicate 12 256)).1 * 1280 + 1024 := by
  have hblock : (1024 : UInt32).toNat + 256 < 2 ^ 32 := by decide
  have hcycles : ∀ nframes ∈ List.replicate 12 256, UInt32.toNat nframes ≤ 256 := by
    intro nframes hmem
    rw [List.eq_of_mem_replicate hmem]
    decide
  exact ⟨(updates_rate 0 _).1 rfl, (updates_rate 1024 _).2 (by decide) 256 hblock hcycles⟩

/-! ## The loop over the outputs -/

/-- What the plugin leaves: its control outputs, and by port the type and body of the events that
the loop over an event output finds. -/
structure ReportedCycle where
  controls : Nat → UInt32
  events : Nat → List (UInt32 × List UInt8)

/-- `max_latency`. -/
def maxLatency : ℚ := 16777216

/-- The latency in frames of a control output; `none` is not a number or not finite. -/
def latencyFrames : Option ℚ → UInt32
  | some value => if 0 ≤ value ∧ value ≤ maxLatency then UInt32.ofNat ⌊value⌋.toNat else 0
  | none => 0

/-- One round of the loop, at port `p`: `plugin_latency` and the messages that it writes. -/
def reportPort (toRat : UInt32 → Option ℚ) (hasUi sendUiUpdates : Bool) (out : ReportedCycle)
    (p : Nat) (port : ProcessPort) (pluginLatency : UInt32) : UInt32 × List JalvMessage :=
  if port.flow = .output ∧ port.type = .control ∧ port.reportsLatency then
    let frames := latencyFrames (toRat (out.controls p))
    if pluginLatency ≠ frames then (frames, [.latencyChange frames.toFloat32.toBits])
    else (pluginLatency, [])
  else if port.flow = .output ∧ port.type = .event then
    (pluginLatency,
      if hasUi then
        (out.events p).map fun event => .eventTransfer (UInt32.ofNat p) event.1 event.2
      else [])
  else if sendUiUpdates ∧ port.flow = .output ∧ port.type = .control then
    (pluginLatency, [.controlPortChange (UInt32.ofNat p) (out.controls p)])
  else (pluginLatency, [])

/-- Where the process thread is: outside a cycle, or in the loop, in front of port `p` with some
messages of the port before still to write. -/
inductive ReportPlace where
  | idle
  | port (p : Nat) (out : ReportedCycle) (sendUiUpdates : Bool) (todo : List JalvMessage)

/-- The two threads at `plugin_to_ui`; `recomputed` is the latency that the backend has recomputed
with last. -/
structure Reporting where
  pluginToUi : Channel JalvMessage JalvMessageHeader
  pendingFrames : UInt32
  pluginLatency : UInt32
  place : ReportPlace
  recomputed : UInt32

/-- The steps: a cycle that is not paused, a port, the two halves of a write, and the reads of
`jalv_update`. -/
inductive ReportStep where
  | cycle (nframes : UInt32) (out : ReportedCycle)
  | port
  | begin
  | finish
  | enter
  | read

namespace Reporting

/-- What is fixed: the ports, `update_frames`, `has_ui` and the values of floats. -/
structure Config where
  layout : Layout
  updateFrames : UInt32
  hasUi : Bool
  toRat : UInt32 → Option ℚ

/-- One step. -/
def step (cfg : Config) (s : Reporting) : ReportStep → Option Reporting
  | .cycle nframes out =>
    match s.place with
    | .idle =>
      let run := jalvRunUpdates cfg.updateFrames s.pendingFrames nframes
      some { s with pendingFrames := run.2, place := .port 0 out run.1 [] }
    | _ => none
  | .port =>
    match s.place with
    | .port p out sendUiUpdates [] =>
      if s.pluginToUi.writing.isSome then none
      else
        match cfg.layout.ports[p]? with
        | some port =>
          let report := reportPort cfg.toRat cfg.hasUi sendUiUpdates out p port s.pluginLatency
          some { s with
            pluginLatency := report.1
            place := .port (p + 1) out sendUiUpdates report.2 }
        | none => some { s with place := .idle }
    | _ => none
  | .begin =>
    match s.place with
    | .port p out sendUiUpdates (m :: todo) =>
      (Channel.step (cfg.layout.framing .pluginToUi) s.pluginToUi (.begin m)).map
        fun pluginToUi => { s with pluginToUi, place := .port p out sendUiUpdates todo }
    | _ => none
  | .finish =>
    (Channel.step (cfg.layout.framing .pluginToUi) s.pluginToUi .finish).map
      fun pluginToUi => { s with pluginToUi }
  | .enter =>
    (Channel.step (cfg.layout.framing .pluginToUi) s.pluginToUi .enter).map
      fun pluginToUi => { s with pluginToUi }
  | .read =>
    (s.pluginToUi.readStep (cfg.layout.framing .pluginToUi)).map fun read =>
      match read.2 with
      | some (.latencyChange _) =>
        { s with pluginToUi := read.1, recomputed := s.pluginLatency }
      | _ => { s with pluginToUi := read.1 }

/-- The runs from the activation on, with an empty ring; the backend has computed the latencies with
that of a new `JalvProcess`. -/
def system (cfg : Config) (ringSize : Nat) : Lts Reporting ReportStep where
  init s := s = ⟨⟨⟨ringSize, []⟩, none, .idle, [], [], 0⟩, 0, 0, .idle, 0⟩
  step s a s' := s.step cfg a = some s'

/-- The messages of the loop that `jalv_update` has not read. -/
def underWay (s : Reporting) : List JalvMessage :=
  s.pluginToUi.pending ++ s.pluginToUi.writing.toList.map Prod.fst ++
    match s.place with
    | .idle => []
    | .port _ _ _ todo => todo

/-- A change of the latency. -/
def IsLatency : JalvMessage → Prop
  | .latencyChange _ => True
  | _ => False

/-- Each message fits the buffer of `jalv_update`, and there is room for each change of the
latency. -/
def Keeps (cfg : Config) (s : Reporting) : ReportStep → Prop
  | .begin => ∀ p out sendUiUpdates m todo, s.place = .port p out sendUiUpdates (m :: todo) →
    Ring.pluginToUi.Receivable cfg.layout.uiMsgSize m
  | .finish => ∀ m tx, s.pluginToUi.writing = some (m, tx) → IsLatency m →
    m.header.bytes.length + m.payload.length ≤ tx.free
  | _ => True

/-- The backend has computed with the latency of the plugin, or it will be told to. -/
structure Inv (cfg : Config) (s : Reporting) : Prop where
  channel : ChannelInv (cfg.layout.framing .pluginToUi) s.pluginToUi
  told : s.recomputed = s.pluginLatency ∨ ∃ m ∈ s.underWay, IsLatency m

variable {cfg : Config} {s s' : Reporting}

/-- A round of the loop leaves `plugin_latency`, or it writes of the change. -/
theorem reportPort_cases (toRat : UInt32 → Option ℚ) (hasUi sendUiUpdates : Bool)
    (out : ReportedCycle) (p : Nat) (port : ProcessPort) (pluginLatency : UInt32) :
    (reportPort toRat hasUi sendUiUpdates out p port pluginLatency).1 = pluginLatency ∨
      ∃ m ∈ (reportPort toRat hasUi sendUiUpdates out p port pluginLatency).2, IsLatency m := by
  rw [reportPort]
  split
  next =>
    by_cases hchange :
        pluginLatency ≠ latencyFrames (toRat (out.controls p))
    · simp only [if_pos hchange]
      exact .inr ⟨_, List.mem_singleton_self _, trivial⟩
    · rw [if_neg hchange]
      exact .inl rfl
  next =>
    split
    next => exact .inl rfl
    next => split <;> exact .inl rfl

/-- A cycle that begins tells of nothing yet, and changes no latency. -/
theorem Inv.cycle {nframes : UInt32} {out : ReportedCycle} (h : s.Inv cfg)
    (hstep : s.step cfg (.cycle nframes out) = some s') : s'.Inv cfg := by
  cases hplace : s.place with
  | idle =>
      simp only [step, hplace] at hstep
      obtain rfl := Option.some.inj hstep
      refine ⟨h.channel, h.told.imp_right ?_⟩
      simp only [underWay, hplace, imp_self]
  | port => simp only [step, hplace, reduceCtorEq] at hstep

/-- A round of the loop over the ports leaves `plugin_latency`, or writes of its change. -/
theorem Inv.port (h : s.Inv cfg) (hstep : s.step cfg .port = some s') : s'.Inv cfg := by
  cases hplace : s.place with
  | idle => simp only [step, hplace, reduceCtorEq] at hstep
  | port p out sendUiUpdates todo =>
      cases todo with
      | cons m todo => simp only [step, hplace, reduceCtorEq] at hstep
      | nil =>
          have htold := h.told
          simp only [underWay, hplace, List.append_nil] at htold
          simp only [step, hplace] at hstep
          split at hstep
          next => cases hstep
          next =>
            split at hstep
            next port _ =>
              obtain rfl := Option.some.inj hstep
              refine ⟨h.channel, ?_⟩
              simp only [underWay]
              rcases reportPort_cases cfg.toRat cfg.hasUi sendUiUpdates out p port
                s.pluginLatency with hsame | ⟨m, hm, hlatency⟩
              · rw [hsame]
                exact htold.imp_right fun ⟨m, hm, hlatency⟩ =>
                  ⟨m, List.mem_append_left _ hm, hlatency⟩
              · exact .inr ⟨m, List.mem_append_right _ hm, hlatency⟩
            next =>
              obtain rfl := Option.some.inj hstep
              refine ⟨h.channel, ?_⟩
              simpa only [underWay, List.append_nil] using htold

/-- A write that begins has its message under way as before. -/
theorem Inv.begin (h : s.Inv cfg) (hkeeps : Keeps cfg s .begin)
    (hstep : s.step cfg .begin = some s') : s'.Inv cfg := by
  cases hplace : s.place with
  | idle => simp only [step, hplace, reduceCtorEq] at hstep
  | port p out sendUiUpdates todo =>
      cases todo with
      | nil => simp only [step, hplace, reduceCtorEq] at hstep
      | cons m todo =>
          simp only [step, hplace, Option.map_eq_some_iff] at hstep
          obtain ⟨pluginToUi, hbegin, rfl⟩ := hstep
          have hvalid := hkeeps p out sendUiUpdates m todo hplace
          refine ⟨h.channel.step (a := .begin m) hvalid hbegin, h.told.imp_right ?_⟩
          obtain ⟨hnone, ⟨tx, hsome⟩, hpending⟩ := Channel.pending_begin hbegin
          simp [underWay, hplace, hnone, hsome, hpending]

/-- A write that ends has found the room for a latency message, which stays under way. -/
theorem Inv.finish (h : s.Inv cfg) (hkeeps : Keeps cfg s .finish)
    (hstep : s.step cfg .finish = some s') : s'.Inv cfg := by
  obtain ⟨pluginToUi, hfinish, rfl⟩ := Option.map_eq_some_iff.1 hstep
  refine ⟨h.channel.step (a := .finish) trivial hfinish, h.told.imp_right ?_⟩
  obtain ⟨m, tx, hwriting, hnone, -, hpending⟩ := h.channel.pending_finish hfinish
  rintro ⟨m', hm', hlatency⟩
  refine ⟨m', ?_, hlatency⟩
  rw [underWay, List.mem_append, List.mem_append, hwriting] at hm'
  rw [underWay, List.mem_append, List.mem_append]
  rcases hm' with (hm' | hm') | hm'
  · refine .inl (.inl ?_)
    rcases hpending with ⟨-, heq⟩ | ⟨-, heq⟩
    · exact heq ▸ List.mem_append_left _ hm'
    · exact heq ▸ hm'
  · obtain rfl : m' = m := List.mem_singleton.1 hm'
    have hroom := hkeeps m' tx hwriting hlatency
    rcases hpending with ⟨-, heq⟩ | ⟨hfull, -⟩
    · exact .inl (.inl (heq ▸ List.mem_append_right _ List.mem_cons_self))
    · have hlength : ((cfg.layout.framing .pluginToUi).encode m').length =
          m'.header.bytes.length + m'.payload.length := List.length_append
      omega
  · exact .inr hm'

/-- A call of the interface that begins takes no message yet. -/
theorem Inv.enter (h : s.Inv cfg) (hstep : s.step cfg .enter = some s') : s'.Inv cfg := by
  obtain ⟨pluginToUi, henter, rfl⟩ := Option.map_eq_some_iff.1 hstep
  refine ⟨h.channel.step (a := .enter) trivial henter, ?_⟩
  obtain ⟨hwriting, hpending⟩ := Channel.pending_enter henter
  simpa only [underWay, hwriting, hpending] using h.told

/-- A message of the latency that is read has it recomputed as it is; another leaves the one under
way. -/
theorem Inv.read (h : s.Inv cfg) (hstep : s.step cfg .read = some s') : s'.Inv cfg := by
  obtain ⟨⟨pluginToUi, got⟩, hread, hs'⟩ := Option.map_eq_some_iff.1 hstep
  obtain ⟨hchannel, hwriting, hpending⟩ := h.channel.readStep hread
  -- a message that tells of no change leaves the one that does
  have hrest : (∀ m ∈ got, ¬IsLatency m) → { s with pluginToUi }.Inv cfg := by
    refine fun hgot => ⟨hchannel, h.told.imp_right ?_⟩
    rintro ⟨m, hm, hlatency⟩
    refine ⟨m, ?_, hlatency⟩
    rw [underWay, List.append_assoc, hpending, List.append_assoc, List.mem_append] at hm
    rcases hm with hm | hm
    · exact absurd hlatency (hgot m (Option.mem_toList.1 hm))
    · rwa [underWay, hwriting, List.append_assoc]
  cases got with
  | none =>
      obtain rfl : { s with pluginToUi } = s' := hs'
      exact hrest nofun
  | some m =>
      cases m with
      | latencyChange value =>
          obtain rfl : { s with pluginToUi, recomputed := s.pluginLatency } = s' := hs'
          exact ⟨hchannel, .inl rfl⟩
      | controlPortChange | eventTransfer | stateRequest | runStateChange =>
          obtain rfl : { s with pluginToUi } = s' := hs'
          exact hrest fun m hm => by
            obtain rfl := Option.some.inj hm
            exact not_false

end Reporting

end Soundcan.Galv
