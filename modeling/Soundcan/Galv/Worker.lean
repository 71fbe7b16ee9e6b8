import Soundcan.Galv.Comm

/-!
# The worker

`worker.c` carries the requests of the plugin to a worker thread and its responses back, each
through a ring of packets: the size and the bytes. A semaphore counts the requests. Four activities
run side by side: `jalv_worker_schedule`, the loop of `worker_func`, `jalv_worker_respond` and
`jalv_worker_emit_responses`. The ring of requests holds as many packets as there are posts,
counting the one that is still to come and the wait whose packet is still to be read
(`WorkerInv`), so every request is worked on once and every response is emitted once
(`worker_exactlyOnce`).
-/

namespace Soundcan.Galv

open Bytes ByteRing

/-! ## Packets -/

/-- `MAX_PACKET_SIZE`. -/
abbrev maxPacketSize : Nat := 4096

/-- `jalv_worker_write_packet`, between the beginning of its transaction and the commit. -/
def jalvWorkerWritePacket (data : List UInt8) (tx : Transaction) : Option Transaction :=
  (tx.amendWrite (wordBytes (UInt32.ofNat data.length))).bind fun tx => tx.amendWrite data

/-- The size in a header. -/
def packetSize (header : List UInt8) : UInt32 := UInt32.ofNat (ofLe header)

@[simp] theorem packetSize_wordBytes (n : UInt32) : packetSize (wordBytes n) = n := ofLe_wordBytes n

/-- Packets are frames. Their size is a 32-bit word. -/
def packets : Framing (List UInt8) UInt32 where
  Valid data := data.length < 2 ^ 32
  headerSize := 4
  header data := wordBytes (UInt32.ofNat data.length)
  body data := data
  amend := jalvWorkerWritePacket
  parse := packetSize
  bodySize size := size.toNat
  readBody size r := r.read size.toNat
  headerSize_pos := by decide
  length_header _ := length_wordBytes _
  amend_eq _ tx _ := tx.amendWrite_append _ _
  bodySize_parse data h := by
    rw [packetSize_wordBytes]
    exact UInt32.toNat_ofNat_of_lt' h
  readBody_parse data r rest h hr := by
    rw [packetSize_wordBytes, UInt32.toNat_ofNat_of_lt' h]
    exact ByteRing.read_append hr

/-- A ring with its writer and its reader. `writing` is the packet of the
`jalv_worker_write_packet` that is under way, `head` the size that was read while its bytes were
not; `accepted` and `taken` are history: the packets committed, and those read. -/
structure PacketRing where
  ring : ByteRing
  writing : Option (List UInt8 × Transaction)
  head : Option UInt32
  accepted : List (List UInt8)
  taken : List (List UInt8)

namespace PacketRing

/-- `zix_ring_new(NULL, MAX_PACKET_SIZE)`: one byte of it stays free. -/
def new : PacketRing := ⟨⟨maxPacketSize - 1, []⟩, none, none, [], []⟩

/-- `zix_ring_begin_write`. -/
def begin (p : PacketRing) (data : List UInt8) : Option PacketRing :=
  if p.writing = none ∧ data.length < 2 ^ 32 then
    some { p with writing := some (data, p.ring.beginWrite) }
  else none

/-- The rest of `jalv_worker_write_packet`, and whether it succeeds. -/
def finish (p : PacketRing) : Option (PacketRing × Bool) :=
  p.writing.map fun (data, tx) =>
    match jalvWorkerWritePacket data tx with
    | some tx =>
      ({ p with
        ring := p.ring.commitWrite tx, writing := none, accepted := p.accepted ++ [data] }, true)
    | none => ({ p with writing := none }, false)

/-- Read the size of a packet. -/
def readSize (p : PacketRing) : Option PacketRing :=
  (p.ring.read 4).map fun (bytes, ring) => { p with ring, head := some (packetSize bytes) }

/-- Read the bytes of a packet. -/
def readData (p : PacketRing) : Option (List UInt8 × PacketRing) := do
  let size ← p.head
  let (data, ring) ← p.ring.read size.toNat
  some (data, { p with ring, head := none, taken := p.taken ++ [data] })

/-- The packets in a ring, of which the first may be without its size. -/
def Holds (p : PacketRing) (pending : List (List UInt8)) : Prop :=
  match p.head with
  | none => p.ring.bytes = packets.encodeAll pending
  | some size => ∃ data rest, pending = data :: rest ∧ size = UInt32.ofNat data.length ∧
      p.ring.bytes = data ++ packets.encodeAll rest

/-- The invariant of a ring: `pending` are the packets that are in it. -/
structure Inv (p : PacketRing) (pending : List (List UInt8)) : Prop where
  capacity : p.ring.capacity = maxPacketSize - 1
  holds : p.Holds pending
  accepted_eq : p.accepted = p.taken ++ pending
  fits : ∀ data ∈ p.accepted, 4 + data.length < maxPacketSize
  writing : ∀ data tx, p.writing = some (data, tx) →
    data.length < 2 ^ 32 ∧ tx.bytes = [] ∧ tx.free < maxPacketSize

variable {p p' : PacketRing} {pending : List (List UInt8)} {data : List UInt8}

/-- A new channel has nothing pending. -/
theorem inv_new : new.Inv [] where
  capacity := rfl
  holds := rfl
  accepted_eq := rfl
  fits := nofun
  writing := nofun

/-- A write that has begun is not pending yet. -/
theorem Inv.begin (h : p.Inv pending) (hbegin : p.begin data = some p') :
    p'.Inv pending ∧ p'.head = p.head ∧ p'.accepted = p.accepted ∧ p'.taken = p.taken ∧
      p'.writing = some (data, p.ring.beginWrite) := by
  rw [PacketRing.begin] at hbegin
  split at hbegin
  next hlt =>
    obtain rfl := Option.some.inj hbegin
    refine ⟨⟨h.capacity, h.holds, h.accepted_eq, h.fits, ?_⟩, rfl, rfl, rfl, rfl⟩
    intro data' tx hw
    obtain ⟨rfl, rfl⟩ := Prod.mk.inj (Option.some.inj hw)
    refine ⟨hlt.2, rfl, ?_⟩
    rw [ByteRing.beginWrite, h.capacity]
    exact (Nat.sub_le _ _).trans_lt (by decide)
  next => cases hbegin

/-- Bytes of a packet come behind those of the others. -/
theorem Holds.concat (h : p.Holds pending) {ring : ByteRing}
    (hring : ring.bytes = p.ring.bytes ++ packets.encode data) (hhead : p'.head = p.head)
    (hring' : p'.ring = ring) : p'.Holds (pending ++ [data]) := by
  subst hring'
  rw [Holds] at h ⊢
  rw [hhead]
  cases hp : p.head with
  | none =>
      simp only [hp] at h ⊢
      rw [hring, h, Framing.encodeAll_append, Framing.encodeAll_cons, Framing.encodeAll_nil,
        List.append_nil]
  | some size =>
      simp only [hp] at h ⊢
      obtain ⟨data', rest, rfl, hsize, hbytes⟩ := h
      refine ⟨data', rest ++ [data], rfl, hsize, ?_⟩
      rw [hring, hbytes, Framing.encodeAll_append, Framing.encodeAll_cons, Framing.encodeAll_nil,
        List.append_nil, List.append_assoc]

/-- A write puts its packet behind the others, or leaves the ring as it is. -/
theorem Inv.finish (h : p.Inv pending) {ok : Bool} (hfinish : p.finish = some (p', ok)) :
    p'.head = p.head ∧ p'.taken = p.taken ∧
      if ok then ∃ data tx, p.writing = some (data, tx) ∧ p'.accepted = p.accepted ++ [data] ∧
        p'.Inv (pending ++ [data]) ∧ p'.writing = none
      else p'.ring = p.ring ∧ p'.accepted = p.accepted ∧ p'.Inv pending ∧ p'.writing = none := by
  obtain ⟨⟨data, tx⟩, hw, hp'⟩ := Option.map_eq_some_iff.1 hfinish
  obtain ⟨hlt, hnil, hfree⟩ := h.writing data tx hw
  have hamend : jalvWorkerWritePacket data tx = tx.amendWrite (packets.encode data) :=
    packets.amend_eq data tx hlt
  have hidle : ∀ data' tx', (none : Option (List UInt8 × Transaction)) = some (data', tx') →
      data'.length < 2 ^ 32 ∧ tx'.bytes = [] ∧ tx'.free < maxPacketSize := by
    intro data' tx' heq
    exact absurd heq.symm (Option.some_ne_none _)
  by_cases hfit : (packets.encode data).length ≤ tx.free
  · have hsome : jalvWorkerWritePacket data tx =
        some ⟨tx.free - (packets.encode data).length, packets.encode data⟩ := by
      rw [hamend, ByteRing.Transaction.amendWrite, if_pos hfit, hnil, List.nil_append]
    simp only [hsome] at hp'
    obtain ⟨rfl, rfl⟩ := Prod.mk.inj hp'
    refine ⟨rfl, rfl, ?_⟩
    rw [if_pos rfl]
    refine ⟨data, tx, hw, rfl, ⟨h.capacity, ?_, ?_, ?_, hidle⟩, rfl⟩
    · exact h.holds.concat rfl rfl rfl
    · simp [h.accepted_eq]
    · intro data' hmem
      rcases List.mem_append.1 hmem with hmem | hmem
      · exact h.fits data' hmem
      · obtain rfl := List.mem_singleton.1 hmem
        rw [packets.length_encode] at hfit
        exact hfit.trans_lt hfree
  · have hnone : jalvWorkerWritePacket data tx = none := by
      rw [hamend, ByteRing.Transaction.amendWrite, if_neg hfit]
    simp only [hnone] at hp'
    obtain ⟨rfl, rfl⟩ := Prod.mk.inj hp'
    refine ⟨rfl, rfl, ?_⟩
    rw [if_neg Bool.false_ne_true]
    exact ⟨rfl, rfl, ⟨h.capacity, h.holds, h.accepted_eq, h.fits, hidle⟩, rfl⟩

/-- The size of the first packet is read; without one nothing is. -/
theorem Inv.readSize (h : p.Inv pending) (hhead : p.head = none) :
    match pending with
    | [] => p.readSize = none
    | data :: _ => ∃ p', p.readSize = some p' ∧ p'.Inv pending ∧
        p'.head = some (UInt32.ofNat data.length) ∧ p'.accepted = p.accepted ∧
        p'.taken = p.taken ∧ p'.writing = p.writing := by
  have hholds := h.holds
  rw [Holds, hhead] at hholds
  cases pending with
  | nil =>
      show p.readSize = none
      rw [PacketRing.readSize, ByteRing.read, hholds, Framing.encodeAll_nil, if_neg (by decide)]
      rfl
  | cons data rest =>
      have hread : p.ring.read 4 = some (wordBytes (UInt32.ofNat data.length),
          { p.ring with bytes := data ++ packets.encodeAll rest }) := packets.read_header hholds
      refine ⟨{ p with
        ring := { p.ring with bytes := data ++ packets.encodeAll rest }
        head := some (UInt32.ofNat data.length) }, ?_, ?_, rfl, rfl, rfl, rfl⟩
      · rw [PacketRing.readSize, hread, Option.map_some]
        simp only [packetSize_wordBytes]
      · exact ⟨h.capacity, ⟨data, rest, rfl, rfl, rfl⟩, h.accepted_eq, h.fits, h.writing⟩

/-- Behind a size the bytes of its packet are read. -/
theorem Inv.readData (h : p.Inv pending) {size : UInt32} (hhead : p.head = some size) :
    ∃ data rest p', pending = data :: rest ∧ size.toNat = data.length ∧
      4 + data.length < maxPacketSize ∧ p.readData = some (data, p') ∧ p'.Inv rest ∧
      p'.head = none ∧ p'.accepted = p.accepted ∧ p'.taken = p.taken ++ [data] ∧
      p'.writing = p.writing := by
  have hholds := h.holds
  rw [Holds, hhead] at hholds
  obtain ⟨data, rest, rfl, rfl, hbytes⟩ := hholds
  have hfits : 4 + data.length < maxPacketSize := h.fits data (by rw [h.accepted_eq]; simp)
  have hlt : data.length < 2 ^ 32 :=
    ((Nat.le_add_left _ 4).trans_lt hfits).trans (by decide)
  have hsize : (UInt32.ofNat data.length).toNat = data.length := UInt32.toNat_ofNat_of_lt' hlt
  refine ⟨data, rest, { p with
    ring := { p.ring with bytes := packets.encodeAll rest }, head := none,
    taken := p.taken ++ [data] }, rfl, hsize, hfits, ?_, ?_, rfl, rfl, rfl, rfl⟩
  · rw [PacketRing.readData, hhead, Option.bind_eq_bind, Option.bind_some, hsize,
      ByteRing.read_append hbytes]
    rfl
  · refine ⟨h.capacity, rfl, ?_, h.fits, h.writing⟩
    rw [h.accepted_eq, List.append_assoc, List.singleton_append]

end PacketRing

/-! ## The worker -/

/-- Where `worker_func` is: before its wait, behind it, between the two reads of a request, behind
them, or in the plugin's `work`. -/
inductive WorkerPlace where
  | waiting
  | awake
  | sized
  | loaded (request : List UInt8)
  | working

/-- Where `jalv_worker_emit_responses` is: not called, at the head of its loop, or between the two
reads of a response. -/
inductive EmitPlace where
  | idle
  | loop
  | sized
  deriving DecidableEq

/-- `JalvWorkerImpl` in the state `STATE_LAUNCHED`. `posting` is a `jalv_worker_schedule` before its
`zix_sem_post`. The rest is history: the requests passed to `work`, the responses passed to
`work_response`, and how many had been accepted when `jalv_worker_emit_responses` last returned. -/
structure JalvWorker where
  requests : PacketRing
  responses : PacketRing
  sem : Nat
  posting : Bool
  thread : WorkerPlace
  emitting : EmitPlace
  handled : List (List UInt8)
  emitted : List (List UInt8)
  returned : Nat

/-- The steps of the four activities. `thread` and `emit` are the next step of `worker_func` and of
`jalv_worker_emit_responses`. -/
inductive WorkerStep where
  | schedule (data : List UInt8)
  | scheduleWrite
  | post
  | respond (data : List UInt8)
  | respondWrite
  | thread
  | emit

namespace JalvWorker

/-- A worker as it is launched. -/
def launched : JalvWorker where
  requests := .new
  responses := .new
  sem := 0
  posting := false
  thread := .waiting
  emitting := .idle
  handled := []
  emitted := []
  returned := 0

/-- The next step of `worker_func`, where `realloc` succeeds for every size but 0. It is undefined
where the ring has no packet for it. -/
def threadStep (w : JalvWorker) : Option JalvWorker :=
  match w.thread with
  | .waiting => if 0 < w.sem then some { w with sem := w.sem - 1, thread := .awake } else none
  | .awake => w.requests.readSize.map fun requests => { w with requests, thread := .sized }
  | .sized => do
    let (request, requests) ← w.requests.readData
    if request = [] then none else some { w with requests, thread := .loaded request }
  | .loaded request => some { w with thread := .working, handled := w.handled ++ [request] }
  | .working => some { w with thread := .waiting }

/-- The next step of `jalv_worker_emit_responses`. The response must fit its buffer. -/
def emitStep (w : JalvWorker) : Option JalvWorker :=
  match w.emitting with
  | .idle => some { w with emitting := .loop }
  | .loop =>
    match w.responses.readSize with
    | some responses => some { w with responses, emitting := .sized }
    | none => some { w with emitting := .idle, returned := w.responses.accepted.length }
  | .sized =>
    match w.responses.readData with
    | some (response, responses) =>
      if response.length ≤ maxPacketSize then
        some { w with responses, emitting := .loop, emitted := w.emitted ++ [response] }
      else none
    | none => some { w with responses := { w.responses with head := none }, emitting := .loop }

/-- One step of the worker. `jalv_worker_schedule` refuses an empty request. -/
def step (w : JalvWorker) : WorkerStep → Option JalvWorker
  | .schedule data =>
    if w.posting then none
    else if data = [] then some w
    else (w.requests.begin data).map fun requests => { w with requests }
  | .scheduleWrite =>
    w.requests.finish.map fun (requests, ok) => { w with requests, posting := ok }
  | .post => if w.posting then some { w with sem := w.sem + 1, posting := false } else none
  | .respond data => (w.responses.begin data).map fun responses => { w with responses }
  | .respondWrite => w.responses.finish.map fun (responses, _) => { w with responses }
  | .thread => w.threadStep
  | .emit => w.emitStep

end JalvWorker

/-- The runs of one launch. -/
def workers : Lts JalvWorker WorkerStep where
  init w := w = .launched
  step w a w' := w.step a = some w'

/-! ## The invariant -/

/-- The request that `worker_func` has read and not passed on. -/
def WorkerPlace.inHand : WorkerPlace → List (List UInt8)
  | .loaded request => [request]
  | _ => []

/-- The waits whose packet is still to be read. -/
def WorkerPlace.waited : WorkerPlace → Nat
  | .awake | .sized => 1
  | _ => 0

/-- The invariant: `reqs` and `resps` are the packets in the two rings. -/
structure WorkerInv (w : JalvWorker) (reqs resps : List (List UInt8)) : Prop where
  requests : w.requests.Inv reqs
  responses : w.responses.Inv resps
  sized_requests : w.requests.head ≠ none ↔ w.thread = .sized
  taken_requests : w.requests.taken = w.handled ++ w.thread.inHand
  nonempty : (∀ data ∈ w.requests.accepted, data ≠ []) ∧
    ∀ data tx, w.requests.writing = some (data, tx) → data ≠ []
  count : reqs.length = w.sem + w.posting.toNat + w.thread.waited
  idle : w.requests.writing = none ∨ w.posting = false
  sized_responses : w.responses.head ≠ none ↔ w.emitting = .sized
  taken_responses : w.responses.taken = w.emitted
  returned : w.emitting = .idle → w.returned = w.emitted.length

/-- A worker that has been launched has nothing to do. -/
theorem workerInv_launched : WorkerInv .launched [] [] where
  requests := PacketRing.inv_new
  responses := PacketRing.inv_new
  sized_requests := by simp [JalvWorker.launched, PacketRing.new]
  taken_requests := rfl
  nonempty := ⟨nofun, nofun⟩
  count := rfl
  idle := .inl rfl
  sized_responses := by simp [JalvWorker.launched, PacketRing.new]
  taken_responses := rfl
  returned _ := rfl

variable {w w' : JalvWorker} {reqs resps : List (List UInt8)} {data : List UInt8}

/-- Scheduling work adds a request. -/
theorem WorkerInv.schedule (h : WorkerInv w reqs resps)
    (hstep : w.step (.schedule data) = some w') : WorkerInv w' reqs resps := by
  rw [JalvWorker.step] at hstep
  split at hstep
  · cases hstep
  next hposting =>
    split at hstep
    · obtain rfl := Option.some.inj hstep
      exact h
    next hne =>
      obtain ⟨requests, hbegin, rfl⟩ := Option.map_eq_some_iff.1 hstep
      obtain ⟨hinv, hhead, haccepted, htaken, hwriting⟩ := h.requests.begin hbegin
      refine { h with
        requests := hinv
        sized_requests := hhead ▸ h.sized_requests
        taken_requests := htaken.trans h.taken_requests
        nonempty := ⟨haccepted ▸ h.nonempty.1, fun data' tx hw => ?_⟩
        idle := .inr (Bool.eq_false_iff.2 hposting) }
      obtain ⟨rfl, -⟩ := Prod.mk.inj (Option.some.inj (hwriting.symm.trans hw))
      exact hne

/-- A request that is accepted is still to be counted. -/
theorem WorkerInv.scheduleWrite (h : WorkerInv w reqs resps)
    (hstep : w.step .scheduleWrite = some w') :
    (w'.posting = false → w'.requests.ring = w.requests.ring) ∧
      ∃ reqs', WorkerInv w' reqs' resps := by
  obtain ⟨⟨requests, ok⟩, hfinish, rfl⟩ := Option.map_eq_some_iff.1 hstep
  obtain ⟨hhead, htaken, hok⟩ := h.requests.finish hfinish
  have hposting : w.posting = false := by
    refine h.idle.resolve_left fun hnone => ?_
    rw [PacketRing.finish, hnone] at hfinish
    cases hfinish
  have hcount := h.count
  rw [hposting] at hcount
  cases ok with
  | true =>
      rw [if_pos rfl] at hok
      obtain ⟨data, tx, hw, haccepted, hinv, hwriting⟩ := hok
      refine ⟨nofun, reqs ++ [data], { h with
        requests := hinv
        sized_requests := hhead ▸ h.sized_requests
        taken_requests := htaken.trans h.taken_requests
        nonempty := ⟨fun data' hmem => ?_, fun data' tx' hw' => ?_⟩
        count := ?_
        idle := .inl hwriting }⟩
      · rw [haccepted] at hmem
        rcases List.mem_append.1 hmem with hmem | hmem
        · exact h.nonempty.1 data' hmem
        · obtain rfl := List.mem_singleton.1 hmem
          exact h.nonempty.2 data' tx hw
      · cases hwriting.symm.trans hw'
      · show (reqs ++ [data]).length = w.sem + 1 + w.thread.waited
        rw [List.length_append, hcount, List.length_singleton]
        simp only [Bool.toNat_false]
        omega
  | false =>
      rw [if_neg Bool.false_ne_true] at hok
      obtain ⟨hring, haccepted, hinv, hwriting⟩ := hok
      refine ⟨fun _ => hring, reqs, { h with
        requests := hinv
        sized_requests := hhead ▸ h.sized_requests
        taken_requests := htaken.trans h.taken_requests
        nonempty := ⟨haccepted ▸ h.nonempty.1, fun data' tx' hw' => ?_⟩
        count := hcount
        idle := .inl hwriting }⟩
      cases hwriting.symm.trans hw'

/-- The post of a request. -/
theorem WorkerInv.post (h : WorkerInv w reqs resps) (hstep : w.step .post = some w') :
    WorkerInv w' reqs resps := by
  rw [JalvWorker.step] at hstep
  split at hstep
  next hposting =>
    obtain rfl := Option.some.inj hstep
    have hcount := h.count
    rw [hposting] at hcount
    exact { h with count := hcount, idle := .inr rfl }
  next => cases hstep

/-- Responding adds a response. -/
theorem WorkerInv.respond (h : WorkerInv w reqs resps)
    (hstep : w.step (.respond data) = some w') : WorkerInv w' reqs resps := by
  obtain ⟨responses, hbegin, rfl⟩ := Option.map_eq_some_iff.1 hstep
  obtain ⟨hinv, hhead, -, htaken, -⟩ := h.responses.begin hbegin
  exact { h with
    responses := hinv
    sized_responses := hhead ▸ h.sized_responses
    taken_responses := htaken.trans h.taken_responses }

/-- A response that is refused leaves its ring as it is. -/
theorem WorkerInv.respondWrite (h : WorkerInv w reqs resps)
    (hstep : w.step .respondWrite = some w') :
    (w'.responses.accepted = w.responses.accepted → w'.responses.ring = w.responses.ring) ∧
      ∃ resps', WorkerInv w' reqs resps' := by
  obtain ⟨⟨responses, ok⟩, hfinish, rfl⟩ := Option.map_eq_some_iff.1 hstep
  obtain ⟨hhead, htaken, hok⟩ := h.responses.finish hfinish
  cases ok with
  | true =>
      rw [if_pos rfl] at hok
      obtain ⟨data, tx, -, haccepted, hinv, -⟩ := hok
      refine ⟨fun heq => ?_, resps ++ [data], { h with
        responses := hinv
        sized_responses := hhead ▸ h.sized_responses
        taken_responses := htaken.trans h.taken_responses }⟩
      simp [haccepted] at heq
  | false =>
      rw [if_neg Bool.false_ne_true] at hok
      obtain ⟨hring, haccepted, hinv, -⟩ := hok
      exact ⟨fun _ => hring, resps, { h with
        responses := hinv
        sized_responses := hhead ▸ h.sized_responses
        taken_responses := htaken.trans h.taken_responses }⟩

/-- The wait takes a post. -/
theorem WorkerInv.wait (h : WorkerInv w reqs resps) (hthread : w.thread = .waiting)
    (hsem : 0 < w.sem) : WorkerInv { w with sem := w.sem - 1, thread := .awake } reqs resps := by
  have hcount := h.count
  have htaken := h.taken_requests
  rw [hthread] at hcount htaken
  refine { h with
    sized_requests := h.sized_requests.trans (iff_of_false (by simp [hthread]) (by simp))
    taken_requests := htaken
    count := ?_ }
  change reqs.length = w.sem + w.posting.toNat + 0 at hcount
  change reqs.length = w.sem - 1 + w.posting.toNat + 1
  omega

/-- Behind a wait there is a packet, whose size is read. -/
theorem WorkerInv.readSize (h : WorkerInv w reqs resps) (hthread : w.thread = .awake) :
    ∃ requests, w.requests.readSize = some requests ∧
      WorkerInv { w with requests, thread := .sized } reqs resps := by
  have hcount := h.count
  have htaken := h.taken_requests
  rw [hthread] at hcount htaken
  have hhead : w.requests.head = none := not_ne_iff.1 (h.sized_requests.not.2 (by simp [hthread]))
  have hread := h.requests.readSize hhead
  cases reqs with
  | nil =>
      change 0 = w.sem + w.posting.toNat + 1 at hcount
      omega
  | cons data rest =>
      obtain ⟨requests, hread, hinv, hhead', haccepted, htaken', hwriting⟩ := hread
      exact ⟨requests, hread, { h with
        requests := hinv
        sized_requests := by simp [hhead']
        taken_requests := htaken'.trans htaken
        nonempty := by rw [haccepted, hwriting]; exact h.nonempty
        count := hcount
        idle := hwriting ▸ h.idle }⟩

/-- The packet is read; it is a request, and not an empty one. -/
theorem WorkerInv.readData (h : WorkerInv w reqs resps) (hthread : w.thread = .sized) :
    ∃ data requests rest, w.requests.readData = some (data, requests) ∧ data ≠ [] ∧
      WorkerInv { w with requests, thread := .loaded data } rest resps := by
  have hcount := h.count
  have htaken := h.taken_requests
  rw [hthread] at hcount htaken
  obtain ⟨size, hhead⟩ := Option.ne_none_iff_exists'.1 (h.sized_requests.2 hthread)
  obtain ⟨data, rest, requests, rfl, -, -, hread, hinv, hhead', haccepted, htaken', hwriting⟩ :=
    h.requests.readData hhead
  have hne : data ≠ [] := h.nonempty.1 data (by rw [h.requests.accepted_eq]; simp)
  refine ⟨data, requests, rest, hread, hne, { h with
    requests := hinv
    sized_requests := by simp [hhead']
    taken_requests := ?_
    nonempty := by rw [haccepted, hwriting]; exact h.nonempty
    count := ?_
    idle := hwriting ▸ h.idle }⟩
  · change requests.taken = w.handled ++ [data]
    rw [htaken', htaken]
    exact congrArg (· ++ [data]) (List.append_nil _)
  · change rest.length + 1 = w.sem + w.posting.toNat + 1 at hcount
    exact Nat.succ.inj hcount

/-- `worker_func` finds a packet behind each wait. -/
theorem WorkerInv.thread (h : WorkerInv w reqs resps) (hready : w.thread = .waiting → 0 < w.sem) :
    ∃ w' reqs', w.step .thread = some w' ∧ WorkerInv w' reqs' resps := by
  have hcount := h.count
  have htaken := h.taken_requests
  rw [JalvWorker.step, JalvWorker.threadStep]
  cases hthread : w.thread with
  | waiting =>
      have hsem := hready hthread
      exact ⟨_, reqs, if_pos hsem, h.wait hthread hsem⟩
  | awake =>
      obtain ⟨requests, hread, h'⟩ := h.readSize hthread
      exact ⟨_, reqs, congrArg (Option.map _) hread, h'⟩
  | sized =>
      obtain ⟨data, requests, rest, hread, hne, h'⟩ := h.readData hthread
      refine ⟨_, rest, ?_, h'⟩
      simp only [hread, Option.bind_eq_bind, Option.bind_some, if_neg hne]
  | loaded request =>
      rw [hthread] at hcount htaken
      exact ⟨_, reqs, rfl, { h with
        sized_requests := h.sized_requests.trans (iff_of_false (by simp [hthread]) (by simp))
        taken_requests := htaken.trans (List.append_nil _).symm
        count := hcount }⟩
  | working =>
      rw [hthread] at hcount htaken
      exact ⟨_, reqs, rfl, { h with
        sized_requests := h.sized_requests.trans (iff_of_false (by simp [hthread]) (by simp))
        taken_requests := htaken
        count := hcount }⟩

/-- `jalv_worker_emit_responses` finds whole packets, which fit its buffer. -/
theorem WorkerInv.emit (h : WorkerInv w reqs resps) :
    ∃ w' resps', w.step .emit = some w' ∧ WorkerInv w' reqs resps' := by
  have hsized := h.sized_responses
  rw [JalvWorker.step, JalvWorker.emitStep]
  cases hemitting : w.emitting with
  | idle =>
      rw [hemitting] at hsized
      exact ⟨_, resps, rfl, { h with
        sized_responses := hsized.trans (iff_of_false nofun nofun)
        returned := nofun }⟩
  | loop =>
      rw [hemitting] at hsized
      have hhead : w.responses.head = none := by simpa using hsized
      have hread := h.responses.readSize hhead
      cases resps with
      | nil =>
          simp only [hread]
          refine ⟨_, [], rfl, { h with
            sized_responses := hsized.trans (iff_of_false nofun nofun)
            returned := fun _ => ?_ }⟩
          change w.responses.accepted.length = w.emitted.length
          rw [h.responses.accepted_eq, h.taken_responses, List.append_nil]
      | cons data rest =>
          obtain ⟨responses, hread, hinv, hhead', -, htaken, -⟩ := hread
          simp only [hread]
          exact ⟨_, data :: rest, rfl, { h with
            responses := hinv
            sized_responses := by simp [hhead']
            taken_responses := htaken.trans h.taken_responses
            returned := nofun }⟩
  | sized =>
      rw [hemitting] at hsized
      obtain ⟨size, hhead⟩ := Option.ne_none_iff_exists'.1 (hsized.2 rfl)
      obtain ⟨data, rest, responses, rfl, -, hfits, hread, hinv, hhead', -, htaken, -⟩ :=
        h.responses.readData hhead
      have hle : data.length ≤ maxPacketSize := ((Nat.le_add_left _ 4).trans_lt hfits).le
      simp only [hread, if_pos hle]
      exact ⟨_, rest, rfl, { h with
        responses := hinv
        sized_responses := by simp [hhead']
        taken_responses := by rw [htaken, h.taken_responses]
        returned := nofun }⟩

/-- Every step keeps the invariant. -/
theorem WorkerInv.step (h : WorkerInv w reqs resps) {a : WorkerStep} (hstep : w.step a = some w') :
    ∃ reqs' resps', WorkerInv w' reqs' resps' := by
  cases a with
  | schedule data => exact ⟨reqs, resps, h.schedule hstep⟩
  | scheduleWrite =>
      obtain ⟨-, reqs', h'⟩ := h.scheduleWrite hstep
      exact ⟨reqs', resps, h'⟩
  | post => exact ⟨reqs, resps, h.post hstep⟩
  | respond data => exact ⟨reqs, resps, h.respond hstep⟩
  | respondWrite =>
      obtain ⟨-, resps', h'⟩ := h.respondWrite hstep
      exact ⟨reqs, resps', h'⟩
  | thread =>
      have hready : w.thread = .waiting → 0 < w.sem := by
        intro hwaiting
        simp only [JalvWorker.step, JalvWorker.threadStep, hwaiting] at hstep
        split at hstep
        next hsem => exact hsem
        next => cases hstep
      obtain ⟨w'', reqs', hstep', h'⟩ := h.thread hready
      obtain rfl := Option.some.inj (hstep'.symm.trans hstep)
      exact ⟨reqs', resps, h'⟩
  | emit =>
      obtain ⟨w'', resps', hstep', h'⟩ := h.emit
      obtain rfl := Option.some.inj (hstep'.symm.trans hstep)
      exact ⟨reqs, resps', h'⟩

/-- The invariant holds behind every run. -/
theorem workerInv_of_run {tr : List WorkerStep} (h : workers.Run tr w) :
    ∃ reqs resps, WorkerInv w reqs resps := by
  refine h.invariant (I := fun _ w => ∃ reqs resps, WorkerInv w reqs resps) ?_ ?_
  · rintro w rfl
    exact ⟨[], [], workerInv_launched⟩
  · rintro tr w a w' - ⟨reqs, resps, h⟩ hstep
    exact h.step hstep

/-! ## Exactly once -/

/-- What the worker is for: the requests passed to `work` are the first accepted ones, the packets
in the ring of requests are counted by the semaphore, the post that is to come and the wait whose
packet is not read, the responses passed to `work_response` are the first accepted ones, all of them
when the emitter returns and until it is called again, and fit its buffer. -/
structure ExactlyOnce (w : JalvWorker) : Prop where
  handled : w.handled <+: w.requests.accepted
  counted : ∃ pending, w.requests.Holds pending ∧
    pending.length = w.sem + w.posting.toNat + w.thread.waited
  emitted : w.emitted <+: w.responses.accepted
  returned : w.emitting = .idle → w.emitted = w.responses.accepted.take w.returned
  returns : ∀ w', w.emitting = .loop → w.step .emit = some w' → w'.emitting = .idle →
    w'.emitted = w'.responses.accepted
  fits : ∀ size, w.responses.head = some size → size.toNat ≤ maxPacketSize

/-- The invariant says all that is promised. -/
theorem WorkerInv.exactlyOnce (h : WorkerInv w reqs resps) : ExactlyOnce w where
  handled := by
    rw [h.requests.accepted_eq, h.taken_requests, List.append_assoc]
    exact List.prefix_append _ _
  counted := ⟨reqs, h.requests.holds, h.count⟩
  emitted := by
    rw [h.responses.accepted_eq, h.taken_responses]
    exact List.prefix_append _ _
  returned hidle := by
    rw [h.responses.accepted_eq, h.taken_responses, h.returned hidle, List.take_left]
  returns w' hloop hstep hidle := by
    have hhead : w.responses.head = none := by simpa [hloop] using h.sized_responses
    have hread := h.responses.readSize hhead
    simp only [JalvWorker.step, JalvWorker.emitStep, hloop] at hstep
    cases resps with
    | nil =>
        simp only [hread] at hstep
        obtain rfl := Option.some.inj hstep
        show w.emitted = w.responses.accepted
        rw [h.responses.accepted_eq, h.taken_responses, List.append_nil]
    | cons data rest =>
        obtain ⟨responses, hread, -⟩ := hread
        simp only [hread] at hstep
        obtain rfl := Option.some.inj hstep
        cases hidle
  fits size hhead := by
    obtain ⟨data, -, -, -, hsize, hfits, -⟩ := h.responses.readData hhead
    rw [hsize]
    exact ((Nat.le_add_left _ 4).trans_lt hfits).le

/-- Requests are handled exactly once: in every state of a launch the worker is as it is to be, a
packet that is refused leaves its ring as it is, and neither the worker thread behind a post nor the
emitter can get stuck. -/
theorem worker_exactlyOnce {tr : List WorkerStep} {w : JalvWorker} (h : workers.Run tr w) :
    ExactlyOnce w ∧
    (∀ w', w.step .scheduleWrite = some w' → w'.posting = false →
      w'.requests.ring = w.requests.ring) ∧
    (∀ w', w.step .respondWrite = some w' → w'.responses.accepted = w.responses.accepted →
      w'.responses.ring = w.responses.ring) ∧
    ((w.thread = .waiting → 0 < w.sem) → ∃ w', w.step .thread = some w') ∧
    ∃ w', w.step .emit = some w' := by
  obtain ⟨reqs, resps, hinv⟩ := workerInv_of_run h
  refine ⟨hinv.exactlyOnce, fun w' hstep => (hinv.scheduleWrite hstep).1,
    fun w' hstep => (hinv.respondWrite hstep).1, fun hready => ?_, ?_⟩
  · obtain ⟨w', reqs', hstep, -⟩ := hinv.thread hready
    exact ⟨w', hstep⟩
  · obtain ⟨w', resps', hstep, -⟩ := hinv.emit
    exact ⟨w', hstep⟩

/-- A request is scheduled, worked on and answered; the answer is emitted. -/
def requestRun : List WorkerStep :=
  [.schedule [1], .scheduleWrite, .post, .thread, .thread, .thread, .thread, .respond [2, 3],
    .respondWrite, .thread, .emit, .emit, .emit, .emit]

/-- One request, whose response of two bytes is handed on in the next cycle. -/
theorem worker_exactlyOnce_request :
    ∃ w, workers.Run requestRun w ∧ ExactlyOnce w ∧ w.handled = [[1]] ∧ w.emitted = [[2, 3]] := by
  have hrun : ∃ w, workers.Run requestRun w ∧ w.handled = [[1]] ∧ w.emitted = [[2, 3]] :=
    ⟨_, Lts.run_of_foldlM (fun _ _ _ h => h) rfl rfl, rfl, rfl⟩
  obtain ⟨w, hrun, hhandled, hemitted⟩ := hrun
  exact ⟨w, hrun, (worker_exactlyOnce hrun).1, hhandled, hemitted⟩

end Soundcan.Galv
