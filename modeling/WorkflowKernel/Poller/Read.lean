import WorkflowKernel.Communicator.Types
import WorkflowKernel.Poller.Parser

/-!
# Read events

`__poller_append_message` and `__poller_handle_read`: what `read` returns is handed to the parser of
the message kept in the node, and a message that ends goes to the callback with the result allocated
beside it. Messages and results are named by their order of allocation. `fed` counts the bytes the
parser consumed; no step reads it.

## What is proved

- `readBuf_append`: the inner loop over a buffer that is cut in two.
- `handleEvents_eq`: the run over any reads and events is the inner loop over the whole stream.
- `handleEvents_cut`: so the results, the error and the unfinished message do not depend on how the
  stream is cut.
-/

namespace WorkflowKernel.Poller

open WorkflowKernel.Communicator

/-- 256 * 1024. -/
def POLLER_BUFSIZE : Nat := 262144

/-- What a `read` that is not at the end returns. -/
structure Chunk (β : Type) where
  bytes : List β
  nonempty : bytes ≠ []
  size_le : bytes.length ≤ POLLER_BUFSIZE

/-- How the reads of one event end. -/
inductive ReadEnd
  | again
  | eof
  | fail
  deriving DecidableEq, Repr

/-- A message object: its order of creation and the bytes it was fed. -/
structure Message (β : Type) where
  id : Nat
  fed : List β
  deriving DecidableEq, Repr

/-- `node->data.message` and `node->res`. -/
structure ReadNode (β : Type) where
  message : Option (Message β)
  res : Option Nat
  deriving DecidableEq, Repr

/-- A `PR_ST_SUCCESS` result: `res` and the message in its `data`. -/
structure Success (β : Type) where
  res : Option Nat
  message : Message β
  deriving DecidableEq, Repr

structure ReadState (β : Type) where
  node : ReadNode β
  created : Nat
  results : List (Success β)
  fed : Nat
  /-- The node went out of the loop: with no callback when another thread had removed it. -/
  stopped : Option (Option PrState)
  deriving DecidableEq, Repr

variable {β : Type}

/-- A node just registered. -/
def ReadState.new : ReadState β where
  node := { message := none, res := none }
  created := 0
  results := []
  fed := 0
  stopped := none

/-- The message to feed: the one in the node, or a new one. -/
def ReadState.msg (s : ReadState β) : Message β :=
  s.node.message.getD { id := s.created, fed := [] }

/-- `node->res`, allocated with a new message. -/
def ReadState.res (s : ReadState β) : Option Nat :=
  if s.node.message.isSome then s.node.res else some s.created

/-- The state after `create_message`, when the node has no message. -/
def ReadState.createdAfter (s : ReadState β) : Nat :=
  if s.node.message.isSome then s.created else s.created + 1

/-- `__poller_append_message`: the return value, `*n` and the state. -/
def appendMessage (P : MessageParser β) (buf : List β) (s : ReadState β) :
    Int × Nat × ReadState β :=
  let r := P.append s.msg.fed buf
  let msg := { s.msg with fed := s.msg.fed ++ buf.take r.2 }
  if 0 < r.1 then
    (r.1, r.2,
      { s with
        node := { message := none, res := none }
        created := s.createdAfter
        results := s.results ++ [{ res := s.res, message := msg }]
        fed := s.fed + r.2 })
  else
    (r.1, r.2,
      { s with
        node := { message := some msg, res := s.res }
        created := s.createdAfter
        fed := s.fed + r.2 })

theorem appendMessage_outcome (P : MessageParser β) (buf : List β) (s : ReadState β) :
    (appendMessage P buf s).1 = (P.append s.msg.fed buf).1 ∧
      (appendMessage P buf s).2.1 = (P.append s.msg.fed buf).2 := by
  simp only [appendMessage]
  split
  · exact ⟨rfl, rfl⟩
  · exact ⟨rfl, rfl⟩

/-- A call on a buffer that did not run dry went forward. -/
theorem appendMessage_pos (P : MessageParser β) (buf : List β) (s : ReadState β)
    (hret : 0 ≤ (appendMessage P buf s).1) (hleft : 0 < buf.length - (appendMessage P buf s).2.1) :
    0 < (appendMessage P buf s).2.1 := by
  obtain ⟨hr, hn⟩ := appendMessage_outcome P buf s
  rw [hr] at hret
  rw [hn] at hleft ⊢
  obtain hzero | hpos := Int.le_iff_eq_or_lt.mp hret
  · have hall := P.consumes _ _ hzero.symm
    omega
  · exact P.takes _ _ hpos

/-- The `do ... while (nleft > 0)` over one buffer; false when `nleft` was set to -1. -/
def readBuf (P : MessageParser β) (buf : List β) (s : ReadState β) : Bool × ReadState β :=
  if _hret : 0 ≤ (appendMessage P buf s).1 then
    if _hleft : 0 < buf.length - (appendMessage P buf s).2.1 then
      readBuf P (buf.drop (appendMessage P buf s).2.1) (appendMessage P buf s).2.2
    else (true, (appendMessage P buf s).2.2)
  else (false, (appendMessage P buf s).2.2)
termination_by buf.length
decreasing_by
  have hpos := appendMessage_pos P buf s _hret _hleft
  rw [List.length_drop]
  omega

/-- The end of `__poller_handle_read`, with what `__poller_remove_node` returns. -/
def handleReadEnd (removed : Bool) (state : PrState) (s : ReadState β) : ReadState β :=
  if removed then { s with stopped := some none }
  else { s with node := { s.node with res := none }, stopped := some (some state) }

/-- `__poller_handle_read` on what its `read` calls return. -/
def handleRead (P : MessageParser β) (removed : Bool) :
    List (Chunk β) → ReadEnd → ReadState β → ReadState β
  | [], .again, s => s
  | [], .eof, s => handleReadEnd removed .finished s
  | [], .fail, s => handleReadEnd removed .error s
  | c :: cs, last, s =>
    match readBuf P c.bytes s with
    | (true, s) => handleRead P removed cs last s
    | (false, s) => handleReadEnd removed .error s

/-- The read events of a node, each with the reads up to `EAGAIN`; there is none after the node was
removed. -/
def handleEvents (P : MessageParser β) (removed : Bool) :
    List (List (Chunk β)) → ReadState β → ReadState β
  | [], s => s
  | e :: es, s =>
    if s.stopped.isSome then s else handleEvents P removed es (handleRead P removed e .again s)

/-! ## One call -/

/-- The message to be fed may still be fed. -/
def ReadState.Open (P : MessageParser β) (s : ReadState β) : Prop := P.Open s.msg.fed

/-- The state after a call that decides nothing. -/
def ReadState.carry (s : ReadState β) (buf : List β) : ReadState β :=
  { s with
    node := { message := some { s.msg with fed := s.msg.fed ++ buf }, res := s.res }
    created := s.createdAfter
    fed := s.fed + buf.length }

section Carry

variable (s : ReadState β) (buf : List β)

theorem carry_msg : (s.carry buf).msg = { s.msg with fed := s.msg.fed ++ buf } := rfl

theorem carry_res : (s.carry buf).res = s.res := rfl

theorem carry_createdAfter : (s.carry buf).createdAfter = s.createdAfter := rfl

theorem carry_fed : (s.carry buf).fed = s.fed + buf.length := rfl

theorem carry_results : (s.carry buf).results = s.results := rfl

theorem carry_stopped : (s.carry buf).stopped = s.stopped := rfl

end Carry

section Cut

variable {P : MessageParser β} {buf more : List β} {s : ReadState β}

/-- A call depends on the parser's outcome and on the bytes that it consumed. -/
theorem appendMessage_congr {c d : List β} (houtcome : P.append s.msg.fed c = P.append s.msg.fed d)
    (htake : c.take (P.append s.msg.fed c).2 = d.take (P.append s.msg.fed c).2) :
    appendMessage P c s = appendMessage P d s := by
  simp only [appendMessage]
  rw [htake, houtcome]

theorem appendMessage_of_decided (hopen : s.Open P) (hne : (appendMessage P buf s).1 ≠ 0) :
    appendMessage P (buf ++ more) s = appendMessage P buf s := by
  rw [(appendMessage_outcome P buf s).1] at hne
  have houtcome := MessageParser.append_of_decided more hopen hne
  apply appendMessage_congr houtcome
  rw [houtcome]
  apply List.take_append_of_le_length
  exact P.size_le _ _

/-- A call that decides nothing leaves the buffer in the message. -/
theorem appendMessage_of_zero (hzero : (appendMessage P buf s).1 = 0) :
    appendMessage P buf s = (0, buf.length, s.carry buf) := by
  rw [(appendMessage_outcome P buf s).1] at hzero
  have hall := P.consumes _ _ hzero
  simp only [appendMessage, hzero, hall, Int.lt_irrefl, if_false, List.take_length]
  rfl

/-- After a call that decides nothing, the next one goes on where it ended. -/
theorem appendMessage_append (hopen : s.Open P) (hzero : (appendMessage P buf s).1 = 0) :
    appendMessage P (buf ++ more) s =
      ((appendMessage P more (s.carry buf)).1,
        buf.length + (appendMessage P more (s.carry buf)).2.1,
        (appendMessage P more (s.carry buf)).2.2) := by
  rw [(appendMessage_outcome P buf s).1] at hzero
  have happend := MessageParser.append_of_zero more hopen hzero
  simp only [appendMessage, happend, carry_msg, carry_res, carry_createdAfter, carry_fed,
    carry_results, carry_stopped, List.take_length_add_append, List.append_assoc, Nat.add_assoc]
  split
  · rfl
  · rfl

/-- The message after a call may be fed, unless it is malformed. -/
theorem appendMessage_open (hopen : s.Open P) (hret : 0 ≤ (appendMessage P buf s).1) :
    (appendMessage P buf s).2.2.Open P := by
  obtain hzero | hpos := Int.le_iff_eq_or_lt.mp hret
  · have hzero' := hzero.symm
    rw [appendMessage_of_zero hzero']
    rw [(appendMessage_outcome P buf s).1] at hzero'
    exact MessageParser.open_of_zero hopen hzero'
  · rw [(appendMessage_outcome P buf s).1] at hpos
    simp only [appendMessage, hpos, if_true]
    exact .inl rfl

end Cut

/-! ## One buffer -/

section Buffer

variable {P : MessageParser β} {buf more : List β} {s : ReadState β}

theorem appendMessage_le (P : MessageParser β) (buf : List β) (s : ReadState β) :
    (appendMessage P buf s).2.1 ≤ buf.length := by
  rw [(appendMessage_outcome P buf s).2]
  exact P.size_le _ _

/-- The loop on a longer buffer whose first call is the same. -/
theorem readBuf_append_of_same (hmore : more ≠ [])
    (hsame : appendMessage P (buf ++ more) s = appendMessage P buf s)
    (hret : 0 ≤ (appendMessage P buf s).1) :
    readBuf P (buf ++ more) s =
      readBuf P (buf.drop (appendMessage P buf s).2.1 ++ more) (appendMessage P buf s).2.2 := by
  have hle := appendMessage_le P buf s
  have hlen := List.length_pos_of_ne_nil hmore
  rw [readBuf, hsame, dif_pos hret, dif_pos, List.drop_append_of_le_length hle]
  rw [List.length_append]
  omega

/-- The inner loop over two buffers is the loop over both in a row: it breaks off in the first, or
goes on in the second. -/
theorem readBuf_append (hmore : more ≠ []) (hopen : s.Open P) :
    readBuf P (buf ++ more) s =
      if (readBuf P buf s).1 then readBuf P more (readBuf P buf s).2 else readBuf P buf s := by
  fun_induction readBuf P buf s with
  | case1 buf s hret hleft ih =>
    -- A message ended inside the first buffer.
    have hne : (appendMessage P buf s).1 ≠ 0 := by
      intro hzero
      rw [appendMessage_of_zero hzero] at hleft
      simp at hleft
    rw [readBuf_append_of_same hmore (appendMessage_of_decided hopen hne) hret]
    exact ih (appendMessage_open hopen hret)
  | case2 buf s hret hleft =>
    rw [if_pos rfl]
    by_cases hzero : (appendMessage P buf s).1 = 0
    · -- The message goes on in the second buffer.
      rw [appendMessage_of_zero hzero]
      have hsub : ∀ n, (buf ++ more).length - (buf.length + n) = more.length - n := by
        intro n
        rw [List.length_append]
        omega
      conv => lhs; rw [readBuf]
      conv => rhs; rw [readBuf]
      simp only [appendMessage_append hopen hzero, hsub, List.drop_length_add_append]
    · -- A message ended with the first buffer.
      have hle := appendMessage_le P buf s
      rw [readBuf_append_of_same hmore (appendMessage_of_decided hopen hzero) hret,
        List.drop_of_length_le (by omega), List.nil_append]
  | case3 buf s hret =>
    have hne : (appendMessage P buf s).1 ≠ 0 := by omega
    rw [readBuf, appendMessage_of_decided hopen hne, dif_neg hret]
    rfl

theorem readBuf_open (hopen : s.Open P) (hok : (readBuf P buf s).1 = true) :
    (readBuf P buf s).2.Open P := by
  fun_induction readBuf P buf s with
  | case1 buf s hret hleft ih => exact ih (appendMessage_open hopen hret) hok
  | case2 buf s hret hleft => exact appendMessage_open hopen hret
  | case3 buf s hret => cases hok

theorem appendMessage_stopped : (appendMessage P buf s).2.2.stopped = s.stopped := by
  simp only [appendMessage]
  split
  · rfl
  · rfl

theorem readBuf_stopped : (readBuf P buf s).2.stopped = s.stopped := by
  fun_induction readBuf P buf s with
  | case1 buf s hret hleft ih => rw [ih, appendMessage_stopped]
  | case2 buf s hret hleft => exact appendMessage_stopped
  | case3 buf s hret => exact appendMessage_stopped

end Buffer

/-! ## The stream -/

/-- The inner loop over a stream that may be empty. -/
def readAll (P : MessageParser β) (stream : List β) (s : ReadState β) : Bool × ReadState β :=
  if stream.isEmpty then (true, s) else readBuf P stream s

def bytesOfReads (cs : List (Chunk β)) : List β := cs.flatMap Chunk.bytes

def bytesOfEvents (es : List (List (Chunk β))) : List β := es.flatMap bytesOfReads

/-- Going on after the inner loop, or leaving the outer one. -/
def readThen (removed : Bool) (next : ReadState β → ReadState β) (r : Bool × ReadState β) :
    ReadState β :=
  if r.1 then next r.2 else handleReadEnd removed .error r.2

section Stream

variable {P : MessageParser β} {removed : Bool} {s : ReadState β}

theorem readAll_append (front back : List β) (hopen : s.Open P) :
    readAll P (front ++ back) s =
      if (readAll P front s).1 then readAll P back (readAll P front s).2
      else readAll P front s := by
  cases front with
  | nil => rfl
  | cons b front =>
    cases back with
    | nil =>
      rw [List.append_nil]
      obtain ⟨ok, t⟩ := readAll P (b :: front) s
      cases ok
      · rfl
      · rfl
    | cons c back => exact readBuf_append (List.cons_ne_nil c back) hopen

theorem readThen_append (front back : List β) (next : ReadState β → ReadState β)
    (hopen : s.Open P) :
    readThen removed next (readAll P (front ++ back) s) =
      readThen removed (fun t => readThen removed next (readAll P back t)) (readAll P front s) := by
  rw [readAll_append front back hopen]
  obtain ⟨ok, t⟩ := readAll P front s
  cases ok
  · rfl
  · rfl

/-- The function that goes on matters where the first loop leaves the message open. -/
theorem readThen_congr (stream : List β) (next next' : ReadState β → ReadState β)
    (hopen : s.Open P) (hstopped : s.stopped = none)
    (hnext : ∀ t : ReadState β, t.Open P → t.stopped = none → next t = next' t) :
    readThen removed next (readAll P stream s) = readThen removed next' (readAll P stream s) := by
  unfold readThen
  split
  · next hok =>
    unfold readAll at hok ⊢
    split
    · exact hnext s hopen hstopped
    · next hcons =>
      rw [if_neg hcons] at hok
      apply hnext
      · exact readBuf_open hopen hok
      · rw [readBuf_stopped, hstopped]
  · rfl

/-- One event is the inner loop over its reads in a row. -/
theorem handleRead_eq (cs : List (Chunk β)) (hopen : s.Open P) (hstopped : s.stopped = none) :
    handleRead P removed cs .again s =
      readThen removed id (readAll P (bytesOfReads cs) s) := by
  induction cs generalizing s with
  | nil => rfl
  | cons c cs ih =>
    have hchunk : readAll P c.bytes s = readBuf P c.bytes s := by
      rw [readAll, if_neg]
      simpa using c.nonempty
    rw [bytesOfReads, List.flatMap_cons, readThen_append _ _ _ hopen, ← bytesOfReads,
      ← readThen_congr c.bytes (handleRead P removed cs .again) _ hopen hstopped
        (fun t ht hts => ih ht hts), hchunk]
    simp only [handleRead, readThen]
    split
    · next hr => simp only [hr, if_true]
    · next hr => simp only [hr, Bool.false_eq_true, if_false]

theorem handleEvents_of_stopped (es : List (List (Chunk β))) (h : s.stopped.isSome) :
    handleEvents P removed es s = s := by
  cases es with
  | nil => rfl
  | cons e es => rw [handleEvents, if_pos h]

theorem handleReadEnd_stopped (state : PrState) :
    (handleReadEnd removed state s).stopped.isSome := by
  unfold handleReadEnd
  split
  · rfl
  · rfl

/-- All events are the inner loop over the whole stream. -/
theorem handleEvents_eq (es : List (List (Chunk β))) (hopen : s.Open P)
    (hstopped : s.stopped = none) :
    handleEvents P removed es s = readThen removed id (readAll P (bytesOfEvents es) s) := by
  induction es generalizing s with
  | nil => rfl
  | cons e es ih =>
    rw [bytesOfEvents, List.flatMap_cons, readThen_append _ _ _ hopen, ← bytesOfEvents,
      ← readThen_congr (bytesOfReads e) (handleEvents P removed es) _ hopen hstopped
        (fun t ht hts => ih ht hts), handleEvents, if_neg (by simp [hstopped]),
      handleRead_eq e hopen hstopped]
    unfold readThen
    split
    · rfl
    · exact handleEvents_of_stopped es (handleReadEnd_stopped .error)

end Stream

/-- The cut of the stream into reads and events does not matter: to the results and the messages
they carry, to where an error stops the node, and to the message it is left with. -/
theorem handleEvents_cut (P : MessageParser β) (removed : Bool) (es es' : List (List (Chunk β)))
    (hsame : bytesOfEvents es = bytesOfEvents es') :
    handleEvents P removed es .new = handleEvents P removed es' .new := by
  rw [handleEvents_eq es (.inl rfl) rfl, handleEvents_eq es' (.inl rfl) rfl, hsame]

/-- A message is a first byte and as many bytes as it says; a 0 is malformed. -/
def countedVerdict : List Nat → Int
  | [] => 0
  | n :: rest => if n = 0 then -1 else if rest.length < n then 0 else 1

/-- Two messages and the head of a third, cut before, in and after the second. -/
theorem handleEvents_cut_counted :
    handleEvents (.ofVerdict countedVerdict (by decide)) false
        [[⟨[1, 7, 2], by decide, by decide⟩, ⟨[8], by decide, by decide⟩],
          [⟨[9, 3, 5], by decide, by decide⟩]] .new =
      handleEvents (.ofVerdict countedVerdict (by decide)) false
        [[⟨[1], by decide, by decide⟩], [⟨[7, 2, 8, 9, 3, 5], by decide, by decide⟩]] .new := by
  apply handleEvents_cut
  rfl

end WorkflowKernel.Poller
