import Mathlib.Data.List.Basic
import Mathlib.Tactic

/-!
# The connection of fluid-ui to fluidsynth

`runCommand` reads the reply to a command in a loop that ends at a negative result of `read` only.
A closed connection gives 0, and so does a buffer that is full. It therefore returns exactly for a
reply that is shorter than the buffer and is followed by a time-out (`runCommand_usable_iff`), and
it stays inside of the buffer in any case.
-/

namespace Soundcan.FluidUi

/-! ## The socket -/

/-- What follows the reply of the synthesizer. -/
inductive Ending where
  | timeout
  | closed
  deriving DecidableEq

/-- The parts in which the reply arrives. -/
structure Socket where
  chunks : List (List Char)
  ending : Ending
  nonempty : ∀ chunk ∈ chunks, chunk ≠ []

namespace Socket

/-- The reply from here on. -/
def reply (socket : Socket) : List Char := socket.chunks.flatten

/-- The socket behind the first `count` bytes of its first part. -/
def advance (socket : Socket) (count : Nat) : Socket where
  chunks := ((socket.chunks.headD []).drop count :: socket.chunks.tail).filter (· ≠ [])
  ending := socket.ending
  nonempty := fun _ h => of_decide_eq_true (List.mem_filter.1 h).2

/-- `read`: the result, the bytes, and the socket behind them. -/
def read (socket : Socket) (count : Nat) : Int × List Char × Socket :=
  if count = 0 then (0, [], socket)
  else
    match socket.chunks with
    | [] => (if socket.ending = .timeout then -1 else 0, [], socket)
    | chunk :: _ => ((chunk.take count).length, chunk.take count, socket.advance count)

end Socket

/-- A connection to the synthesizer, if there is one. -/
inductive Connection where
  | noSocket
  | refused
  | connected (socket : Socket)

/-! ## The loop -/

/-- An integer as a `size_t`. -/
def sizeT (n : Int) : Nat := (n % 2 ^ 64).toNat

/-- How a call ends. -/
inductive RunResult where
  | returned (response : List Char)
  /-- A byte is written behind the end of the buffer. -/
  | outside
  deriving DecidableEq

/-- The bytes that `read` writes at an offset of the buffer. -/
def store (response : List Char) (offset : Nat) (bytes : List Char) : Option (List Char) :=
  if offset + bytes.length ≤ response.length then
    some (response.take offset ++ bytes ++ response.drop (offset + bytes.length))
  else none

/-- The loop of `runCommand` from the offset `p` on, `none` where it has not ended after `fuel`
rounds. -/
def readLoop (responseMax : Nat) : Nat → Socket → Nat → List Char → Option RunResult
  | 0, _, _, _ => none
  | fuel + 1, socket, p, response =>
    let (c, bytes, socket) := socket.read (sizeT (responseMax - p))
    match store response p bytes with
    | none => some .outside
    | some response =>
      if c < 0 then some (.returned response)
      else readLoop responseMax fuel socket (if 0 < c then p + c.toNat else p) response

/-- `runCommand` with a buffer of `responseMax` bytes. -/
def runCommand (responseMax : Nat) (connection : Connection) (fuel : Nat) : Option RunResult :=
  let response := List.replicate responseMax '\x00'
  match connection with
  | .noSocket | .refused => some (.returned response)
  | .connected socket => readLoop responseMax fuel socket 0 response

/-! ## One round -/

/-- The room that is left is computed without a wrap. -/
theorem sizeT_sub {responseMax p : Nat} (hmax : responseMax < 2 ^ 31) (hp : p ≤ responseMax) :
    sizeT (responseMax - p) = responseMax - p := by
  unfold sizeT
  omega

/-- The buffer with what was read so far. -/
def filled (responseMax : Nat) (got : List Char) : List Char :=
  got ++ List.replicate (responseMax - got.length) '\x00'

/-- The buffer keeps its size. -/
theorem length_filled {responseMax : Nat} {got : List Char} (h : got.length ≤ responseMax) :
    (filled responseMax got).length = responseMax := by
  rw [filled, List.length_append, List.length_replicate]
  omega

/-- Bytes that fit are stored behind those that are there. -/
theorem store_filled {responseMax : Nat} {got bytes : List Char}
    (h : got.length + bytes.length ≤ responseMax) :
    store (filled responseMax got) got.length bytes = some (filled responseMax (got ++ bytes)) := by
  have hdrop : (filled responseMax got).drop (got.length + bytes.length) =
      List.replicate (responseMax - (got ++ bytes).length) '\x00' := by
    rw [filled, ← List.drop_drop, List.drop_left, List.drop_replicate, List.length_append,
      Nat.sub_sub]
  rw [store, length_filled (by omega), if_pos h, hdrop, filled, List.take_left, filled,
    List.append_assoc]

namespace Socket

/-- The bytes that are read are taken from the front of the reply. -/
theorem reply_advance {socket : Socket} {chunk : List Char} {chunks : List (List Char)}
    (h : socket.chunks = chunk :: chunks) (count : Nat) :
    chunk.take count ++ (socket.advance count).reply = socket.reply := by
  have hchunks : (socket.advance count).chunks =
      (chunk.drop count :: chunks).filter (· ≠ []) := by
    show ((socket.chunks.headD []).drop count :: socket.chunks.tail).filter (· ≠ []) = _
    rw [h, List.headD_cons, List.tail_cons]
  rw [reply, hchunks, List.flatten_filter_ne_nil, List.flatten_cons, ← List.append_assoc,
    List.take_append_drop, reply, h, List.flatten_cons]

/-- A read of some bytes gets some where there are any. -/
theorem take_ne_nil {socket : Socket} {chunk : List Char} {chunks : List (List Char)}
    (h : socket.chunks = chunk :: chunks) {count : Nat} (hcount : count ≠ 0) :
    chunk.take count ≠ [] := by
  have hchunk : chunk ≠ [] := socket.nonempty chunk (h ▸ List.mem_cons_self)
  intro htake
  rcases List.take_eq_nil_iff.1 htake with hzero | hnil
  · exact hcount hzero
  · exact hchunk hnil

end Socket

/-- A round of the loop. -/
theorem readLoop_round {responseMax : Nat} (hmax : responseMax < 2 ^ 31) (fuel : Nat)
    (socket : Socket) {got : List Char} (hgot : got.length ≤ responseMax) :
    readLoop responseMax (fuel + 1) socket got.length (filled responseMax got) =
      if got.length = responseMax then
        readLoop responseMax fuel socket got.length (filled responseMax got)
      else
        match socket.chunks with
        | [] =>
          if socket.ending = .timeout then some (.returned (filled responseMax got))
          else readLoop responseMax fuel socket got.length (filled responseMax got)
        | chunk :: _ =>
          readLoop responseMax fuel (socket.advance (responseMax - got.length))
            (got ++ chunk.take (responseMax - got.length)).length
            (filled responseMax (got ++ chunk.take (responseMax - got.length))) := by
  have hround : readLoop responseMax (fuel + 1) socket got.length (filled responseMax got) =
      match store (filled responseMax got) got.length
          (socket.read (responseMax - got.length)).2.1 with
      | none => some .outside
      | some response =>
        if (socket.read (responseMax - got.length)).1 < 0 then some (.returned response)
        else readLoop responseMax fuel (socket.read (responseMax - got.length)).2.2
          (if 0 < (socket.read (responseMax - got.length)).1 then
            got.length + (socket.read (responseMax - got.length)).1.toNat else got.length)
          response := by
    rw [readLoop, sizeT_sub hmax hgot]
  have hnothing : store (filled responseMax got) got.length [] = some (filled responseMax got) := by
    have hstore : store (filled responseMax got) got.length [] =
        some (filled responseMax (got ++ [])) := store_filled hgot
    rwa [List.append_nil] at hstore
  rw [hround, Socket.read]
  by_cases hfull : got.length = responseMax
  · rw [if_pos hfull, if_pos (by omega)]
    simp only [hnothing]
    rfl
  · rw [if_neg hfull, if_neg (by omega)]
    cases hchunks : socket.chunks with
    | nil =>
        simp only [hnothing]
        cases socket.ending <;> rfl
    | cons chunk chunks =>
        have hlength : got.length + (chunk.take (responseMax - got.length)).length ≤
            responseMax := by
          rw [List.length_take]
          omega
        have hpos : 0 < (chunk.take (responseMax - got.length)).length :=
          List.length_pos_of_ne_nil (Socket.take_ne_nil hchunks (by omega))
        simp only [store_filled hlength, List.length_append]
        rw [if_neg (by omega), if_pos (by omega), Int.toNat_natCast]

/-! ## The loop -/

/-- A reply that leaves a byte free, with a time-out behind it, is read to its end. -/
theorem readLoop_returns {responseMax : Nat} (hmax : responseMax < 2 ^ 31) {fuel : Nat}
    (socket : Socket) (htimeout : socket.ending = .timeout) (got : List Char)
    (hshort : got.length + socket.reply.length < responseMax)
    (hfuel : socket.reply.length < fuel) :
    readLoop responseMax fuel socket got.length (filled responseMax got) =
      some (.returned (filled responseMax (got ++ socket.reply))) := by
  induction fuel generalizing socket got with
  | zero => exact absurd hfuel (Nat.not_lt_zero _)
  | succ fuel ih =>
      rw [readLoop_round hmax fuel socket (by omega), if_neg (by omega)]
      cases hchunks : socket.chunks with
      | nil =>
          have hreply : socket.reply = [] := by rw [Socket.reply, hchunks, List.flatten_nil]
          rw [hreply, List.append_nil]
          exact if_pos htimeout
      | cons chunk chunks =>
          have hreply := Socket.reply_advance hchunks (responseMax - got.length)
          have hpos : 0 < (chunk.take (responseMax - got.length)).length :=
            List.length_pos_of_ne_nil (Socket.take_ne_nil hchunks (by omega))
          have hlength := congrArg List.length hreply
          rw [List.length_append] at hlength
          have hrest := ih (socket.advance (responseMax - got.length)) htimeout
            (got ++ chunk.take (responseMax - got.length))
            (by rw [List.length_append]; omega) (by omega)
          rw [List.append_assoc, hreply] at hrest
          exact hrest

/-- Behind a reply that fills the buffer, and with a closed connection, the loop does not end. -/
theorem readLoop_runs {responseMax : Nat} (hmax : responseMax < 2 ^ 31) (fuel : Nat)
    {socket : Socket} (got : List Char) (hgot : got.length ≤ responseMax)
    (hlong : responseMax ≤ got.length + socket.reply.length ∨ socket.ending = .closed) :
    readLoop responseMax fuel socket got.length (filled responseMax got) = none := by
  induction fuel generalizing socket got with
  | zero => rfl
  | succ fuel ih =>
      rw [readLoop_round hmax fuel socket hgot]
      by_cases hfull : got.length = responseMax
      · rw [if_pos hfull]
        exact ih got hgot hlong
      rw [if_neg hfull]
      cases hchunks : socket.chunks with
      | nil =>
          have hreply : socket.reply.length = 0 := by
            rw [Socket.reply, hchunks, List.flatten_nil, List.length_nil]
          have hclosed : socket.ending = .closed := hlong.resolve_left (by omega)
          have htimeout : socket.ending ≠ .timeout := by
            rw [hclosed]
            exact Ending.noConfusion
          exact (if_neg htimeout).trans (ih got hgot hlong)
      | cons chunk chunks =>
          have hlength := congrArg List.length
            (Socket.reply_advance hchunks (responseMax - got.length))
          rw [List.length_append] at hlength
          refine ih _ ?_ (hlong.imp (fun hlong => ?_) id)
          · rw [List.length_append, List.length_take]
            omega
          · rw [List.length_append]
            omega

/-- The loop does not write behind the end of the buffer. -/
theorem readLoop_inside {responseMax : Nat} (hmax : responseMax < 2 ^ 31) (fuel : Nat)
    {socket : Socket} (got : List Char) (hgot : got.length ≤ responseMax) :
    readLoop responseMax fuel socket got.length (filled responseMax got) ≠ some .outside := by
  induction fuel generalizing socket got with
  | zero => exact Option.some_ne_none _ ∘ Eq.symm
  | succ fuel ih =>
      rw [readLoop_round hmax fuel socket hgot]
      split
      · exact ih got hgot
      · split
        · split
          · intro h
            cases h
          · exact ih got hgot
        · refine ih _ ?_
          rw [List.length_append, List.length_take]
          omega

/-- The call returns exactly when there is no connection, or when the reply leaves a byte of the
buffer free and is followed by a time-out. Then there is a zero in the buffer, and in no case is
anything written behind its end. -/
theorem runCommand_usable_iff (responseMax : Nat) (hpos : 1 ≤ responseMax)
    (hmax : responseMax < 2 ^ 31) (connection : Connection) :
    ((∀ fuel, runCommand responseMax connection fuel ≠ some .outside) ∧
      ∃ fuel response, runCommand responseMax connection fuel = some (.returned response) ∧
        response.length = responseMax ∧ '\x00' ∈ response) ↔
      ∀ socket, connection = .connected socket →
        socket.reply.length < responseMax ∧ socket.ending = .timeout := by
  have hempty : List.replicate responseMax '\x00' = filled responseMax [] := rfl
  have hzero : ∀ got : List Char, got.length < responseMax → '\x00' ∈ filled responseMax got := by
    intro got hgot
    exact List.mem_append_right _ (List.mem_replicate.2 ⟨by omega, rfl⟩)
  have hunconnected : ∃ response, some (RunResult.returned (List.replicate responseMax '\x00')) =
      some (.returned response) ∧ response.length = responseMax ∧ '\x00' ∈ response :=
    ⟨_, rfl, List.length_replicate, hzero [] hpos⟩
  cases connection with
  | noSocket | refused =>
      refine iff_of_true ⟨fun fuel h => ?_, 0, hunconnected⟩ fun socket h => ?_
      · cases h
      · cases h
  | connected socket =>
      simp only [runCommand, hempty, Connection.connected.injEq, forall_eq']
      constructor
      · rintro ⟨-, fuel, response, hreturned, -⟩
        by_contra hnot
        have hlong : responseMax ≤ ([] : List Char).length + socket.reply.length ∨
            socket.ending = .closed := by
          rcases Nat.lt_or_ge socket.reply.length responseMax with hlt | hge
          · right
            cases hending : socket.ending with
            | timeout => exact absurd ⟨hlt, hending⟩ hnot
            | closed => rfl
          · exact .inl (by simpa using hge)
        have hruns := readLoop_runs hmax fuel [] (Nat.zero_le _) hlong
        rw [List.length_nil, hreturned] at hruns
        cases hruns
      · rintro ⟨hshort, htimeout⟩
        have hreturns := readLoop_returns hmax socket htimeout []
          (by simpa using hshort) (Nat.lt_succ_self socket.reply.length)
        refine ⟨fun fuel => readLoop_inside hmax fuel [] (Nat.zero_le _), _, _, hreturns,
          length_filled ?_, hzero _ ?_⟩
        · exact hshort.le
        · exact hshort

/-- A reply of two parts, with a time-out behind it. -/
def gainSocket : Socket where
  chunks := ["0.2".toList, "00\n".toList]
  ending := .timeout
  nonempty := by decide

/-- The reply to one request, inside its buffer and with its end. -/
theorem gainSocket_usable :
    (∀ fuel, runCommand 100 (.connected gainSocket) fuel ≠ some .outside) ∧
      ∃ fuel response, runCommand 100 (.connected gainSocket) fuel = some (.returned response) ∧
        response.length = 100 ∧ '\x00' ∈ response := by
  refine (runCommand_usable_iff 100 (by decide) (by decide) (.connected gainSocket)).2 ?_
  rintro _ ⟨rfl⟩
  decide

/-- A connection that is closed without a reply. -/
def closedSocket : Socket := ⟨[], .closed, List.forall_mem_nil _⟩

/-- The call does not return when the connection is closed. -/
theorem runCommand_closed_runs :
    ¬∃ fuel response,
      runCommand 100 (.connected closedSocket) fuel = some (.returned response) := by
  rintro ⟨fuel, response, hreturned⟩
  have hruns : runCommand 100 (.connected closedSocket) fuel = none :=
    readLoop_runs (by decide) fuel [] (Nat.zero_le _) (.inr rfl)
  rw [hreturned] at hruns
  cases hruns

end Soundcan.FluidUi
