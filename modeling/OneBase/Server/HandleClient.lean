import OneBase.Server.ResultText

/-!
# One connection on the server (`onebase_server/server_main.cpp`)

A thread of the server receives messages from its client until the stream ends, a
message is malformed, the client sends `TERMINATE` or the server is told to stop. It
answers a query with the text of the result set or of the exception, and a message of
any other type with an error.

- `handleQuery`, `handleClient`: the code, over the two ends of the stream.
- `respond`, `respondAll`: the answers as they are meant, with no stream.
- `exists_frames`: any bytes are some complete frames and a rest that has none.
- `handleClient_respondAll`: whatever bytes the client sends, the complete messages
  before the first `TERMINATE` are answered, one answer each and in order.
-/

namespace OneBase

open Cpp

variable {σ : Type}

/-- A message: its type and its data. -/
abbrev Message := MessageType × List UInt8

/-! ## The code -/

/-- What `BindQuery`, `Optimize` and `Execute` make of a query: the names of the columns
and the texts of the values of each row, or the text of the exception. -/
abbrev Answer := Except (List UInt8) (List (List UInt8) × List (List (List UInt8)))

/-- The message that `HandleQuery` sends: the result set or `e.what()`. -/
def Answer.message : Answer → Message
  | .ok (colNames, rows) => (.result, formatResult colNames rows)
  | .error what => (.error, what)

/-- The text `Unknown message type`. -/
def unknownMessageType : List UInt8 :=
  [85, 110, 107, 110, 111, 119, 110, 32, 109, 101, 115, 115, 97, 103, 101, 32, 116, 121, 112, 101]

/-- Model of `HandleQuery` (server_main.cpp:34–77). It does not look at what
`SendMessage` returns. What binding, optimizing and executing make of a query is `execute`, a total
function: a server whose database crashes or runs for ever on a query is not modelled. -/
def handleQuery (execute : σ → List UInt8 → σ × Answer) (db : σ) (sql : List UInt8)
    (out : Outbound) : σ × Outbound :=
  let (db, answer) := execute db sql
  (db, (sendMessage out answer.message.1 answer.message.2).2)

/-- Model of the loop of `HandleClient` (server_main.cpp:85–102). `g_running` is true for
`rounds` rounds. -/
def handleClient (execute : σ → List UInt8 → σ × Answer) :
    Nat → σ → Inbound → Outbound → σ × Inbound × Outbound
  | 0, db, inp, out => (db, inp, out)
  | rounds + 1, db, inp, out =>
    match recvMessage inp ⟨0⟩ [] with
    | (false, _, _, inp) => (db, inp, out)
    | (true, type, data, inp) =>
      if type = .query then
        let (db, out) := handleQuery execute db data out
        handleClient execute rounds db inp out
      else if type = .terminate then (db, inp, out)
      else handleClient execute rounds db inp (sendMessage out .error unknownMessageType).2

/-! ## The answers -/

/-- The answer to a message that is not `TERMINATE`, and what it does to the database. -/
def respond (execute : σ → List UInt8 → σ × Answer) (db : σ) (m : Message) : σ × Message :=
  if m.1 = .query then ((execute db m.2).1, (execute db m.2).2.message)
  else (db, (.error, unknownMessageType))

/-- The answers to some messages, each in the state that the ones before it leave. -/
def respondAll (execute : σ → List UInt8 → σ × Answer) : σ → List Message → σ × List Message
  | db, [] => (db, [])
  | db, m :: messages =>
    let (db, reply) := respond execute db m
    let (db, replies) := respondAll execute db messages
    (db, reply :: replies)

variable {execute : σ → List UInt8 → σ × Answer}

theorem respondAll_cons (db : σ) (m : Message) (messages : List Message) :
    respondAll execute db (m :: messages) =
      ((respondAll execute (respond execute db m).1 messages).1,
        (respond execute db m).2 :: (respondAll execute (respond execute db m).1 messages).2) :=
  rfl

theorem respondAll_append (messages rest : List Message) : ∀ db : σ,
    respondAll execute db (messages ++ rest) =
      ((respondAll execute (respondAll execute db messages).1 rest).1,
        (respondAll execute db messages).2 ++
          (respondAll execute (respondAll execute db messages).1 rest).2) := by
  induction messages with
  | nil => intro db; rfl
  | cons m messages ih =>
    intro db
    rw [List.cons_append, respondAll_cons, ih, respondAll_cons]
    rfl

/-! ## Any bytes -/

/-- The bytes do not begin with a complete frame. -/
def NoFrame (bytes : List UInt8) : Prop :=
  ∀ (type : MessageType) (data rest : List UInt8), data.length + 1 < 2 ^ 32 →
    bytes ≠ frame type data ++ rest

/-- The messages of the frames have lengths that fit the header. -/
def FitHeader (messages : List Message) : Prop := ∀ m ∈ messages, m.2.length + 1 < 2 ^ 32

instance (messages : List Message) : Decidable (FitHeader messages) :=
  inferInstanceAs (Decidable (∀ m ∈ messages, m.2.length + 1 < 2 ^ 32))

/-- Any bytes are some complete frames and a rest that has none. -/
theorem exists_frames : ∀ {n : Nat} (bytes : List UInt8), bytes.length ≤ n →
    ∃ messages rest, bytes = frames messages ++ rest ∧ FitHeader messages ∧ NoFrame rest := by
  intro n
  induction n with
  | zero =>
    intro bytes hlen
    obtain rfl : bytes = [] := List.length_eq_zero_iff.mp (Nat.le_zero.mp hlen)
    refine ⟨[], [], rfl, fun m hm => (List.not_mem_nil hm).elim, fun type data rest _ h => ?_⟩
    simp [frame] at h
  | succ n ih =>
    intro bytes hlen
    by_cases hframe : NoFrame bytes
    · exact ⟨[], bytes, rfl, fun m hm => (List.not_mem_nil hm).elim, hframe⟩
    · simp only [NoFrame, not_forall, not_not] at hframe
      obtain ⟨type, data, rest, hfit, hbytes⟩ := hframe
      -- a frame has a byte at least, so what follows it is shorter
      have hrest : rest.length ≤ n := by
        rw [hbytes, frame, List.append_assoc, List.cons_append, List.length_append,
          List.length_cons, List.length_append] at hlen
        omega
      obtain ⟨messages, rest', hbytes', hfits, hno⟩ := ih rest hrest
      refine ⟨(type, data) :: messages, rest', ?_, ?_, hno⟩
      · rw [hbytes, hbytes', frames_cons, List.append_assoc]
      · intro m hm
        rcases List.mem_cons.mp hm with rfl | hm
        · exact hfit
        · exact hfits m hm

/-- Nothing is received from bytes that begin with no frame. -/
theorem recvMessage_noFrame {s : Inbound} (hpos : s.Positive) (hno : NoFrame s.bytes)
    (type : MessageType) (data : List UInt8) : (recvMessage s type data).1 = false := by
  rw [Bool.eq_false_iff]
  intro htrue
  obtain ⟨type', data', rest, hfit, hbytes⟩ := frame_of_recvMessage hpos htrue
  exact hno type' data' rest hfit hbytes

/-! ## The loop -/

/-- The messages that the loop answers: those before `TERMINATE`, while the server runs. -/
def served (rounds : Nat) (messages : List Message) : List Message :=
  (messages.take rounds).takeWhile (·.1 ≠ .terminate)

/-- The answers fit the header. -/
def RepliesFit (execute : σ → List UInt8 → σ × Answer) (db : σ) (messages : List Message) : Prop :=
  ∀ m ∈ (respondAll execute db messages).2, m.2.length ≤ 2 ^ 32 - 2

/-- A message that is not `TERMINATE` is answered with `respond`. -/
theorem handleClient_succ {inp inp' : Inbound} {m : Message} (hm : m.1 ≠ .terminate)
    (hrecv : recvMessage inp ⟨0⟩ [] = (true, m.1, m.2, inp')) (rounds : Nat) (db : σ)
    (out : Outbound) :
    handleClient execute (rounds + 1) db inp out =
      handleClient execute rounds (respond execute db m).1 inp'
        (sendMessage out (respond execute db m).2.1 (respond execute db m).2.2).2 := by
  rw [handleClient, hrecv]
  by_cases hquery : m.1 = .query
  · simp only [if_pos hquery, respond, handleQuery]
  · simp only [if_neg hquery, if_neg hm, respond]

/-- The loop on complete frames. The induction is on the messages, each of which takes
one round. -/
theorem handleClient_frames {messages : List Message} (hfits : FitHeader messages)
    {rest : List UInt8} (hno : NoFrame rest) :
    ∀ {rounds : Nat} {db : σ} {inp : Inbound} {out : Outbound}, inp.Positive → out.Positive →
      inp.bytes = frames messages ++ rest → RepliesFit execute db (served rounds messages) →
      (handleClient execute rounds db inp out).1 =
          (respondAll execute db (served rounds messages)).1 ∧
        (handleClient execute rounds db inp out).2.2.bytes =
          out.bytes ++ frames (respondAll execute db (served rounds messages)).2 := by
  induction messages with
  | nil =>
    intro rounds db inp out hinp _ hbytes _
    have hserved : served rounds [] = [] := by simp [served]
    rw [hserved]
    cases rounds with
    | zero => exact ⟨rfl, (List.append_nil _).symm⟩
    | succ rounds =>
      have hfalse := recvMessage_noFrame hinp (hbytes ▸ hno) ⟨0⟩ []
      rw [handleClient]
      generalize recvMessage inp ⟨0⟩ [] = r at hfalse
      obtain ⟨ok, type, data, inp'⟩ := r
      cases hfalse
      exact ⟨rfl, (List.append_nil _).symm⟩
  | cons m messages ih =>
    intro rounds db inp out hinp hout hbytes hreplies
    cases rounds with
    | zero => exact ⟨rfl, (List.append_nil _).symm⟩
    | succ rounds =>
      rw [frames_cons, List.append_assoc] at hbytes
      obtain ⟨inp', hinp', hrest, hrecv⟩ :=
        recvMessage_frame hinp ⟨0⟩ [] (hfits m List.mem_cons_self) hbytes
      by_cases hm : m.1 = .terminate
      · have hserved : served (rounds + 1) (m :: messages) = [] := by simp [served, hm]
        have hquery : m.1 ≠ .query := by
          rw [hm]
          decide
        rw [hserved, handleClient, hrecv]
        simp only [if_neg hquery, if_pos hm]
        exact ⟨rfl, (List.append_nil _).symm⟩
      · have hserved : served (rounds + 1) (m :: messages) = m :: served rounds messages := by
          simp [served, hm]
        rw [hserved, RepliesFit, respondAll_cons] at hreplies
        obtain ⟨out', hout', hsent, hsend⟩ := sendMessage_frame hout (respond execute db m).2.1
          (hreplies _ List.mem_cons_self)
        obtain ⟨hdb, hbytes'⟩ := ih (fun m' hm' => hfits m' (List.mem_cons_of_mem _ hm'))
          hinp' hout' hrest fun m' hm' => hreplies m' (List.mem_cons_of_mem _ hm')
        rw [handleClient_succ hm hrecv, hserved, respondAll_cons, hsend]
        refine ⟨hdb, ?_⟩
        rw [hbytes', hsent, frames_cons, List.append_assoc]

/-- **A connection.** Whatever bytes the client sends and however the stream splits the
calls, the complete messages before the first malformed one and before the first
`TERMINATE` are answered, one answer each, in order and in the state that the ones before
leave; nothing else is sent and nothing else reaches the database. When the server is told
to stop, the answers so far have been sent. -/
theorem handleClient_respondAll (execute : σ → List UInt8 → σ × Answer) (rounds : Nat) (db : σ)
    (inp : Inbound) (out : Outbound) (hinp : inp.Positive) (hout : out.Positive)
    (hreplies : ∀ messages, (∃ rest, inp.bytes = frames messages ++ rest) →
      RepliesFit execute db messages) :
    ∃ messages rest, inp.bytes = frames messages ++ rest ∧ FitHeader messages ∧ NoFrame rest ∧
      (handleClient execute rounds db inp out).1 =
        (respondAll execute db (served rounds messages)).1 ∧
      (handleClient execute rounds db inp out).2.2.bytes =
        out.bytes ++ frames (respondAll execute db (served rounds messages)).2 := by
  obtain ⟨messages, rest, hbytes, hfits, hno⟩ := exists_frames inp.bytes (Nat.le_refl _)
  refine ⟨messages, rest, hbytes, hfits, hno, ?_⟩
  -- what is answered is a beginning of the messages
  have hpre : served rounds messages <+: messages :=
    (List.takeWhile_prefix _).trans (List.take_prefix _ _)
  obtain ⟨later, hlater⟩ := hpre
  have hsplit : frames messages = frames (served rounds messages) ++ frames later := by
    show List.flatMap _ messages = List.flatMap _ _ ++ List.flatMap _ _
    rw [← List.flatMap_append, hlater]
  refine handleClient_frames hfits hno hinp hout hbytes (hreplies _ ⟨frames later ++ rest, ?_⟩)
  rw [hbytes, hsplit, List.append_assoc]

/-- A database that counts the queries and answers none. -/
def countQueries (n : Nat) (_ : List UInt8) : Nat × Answer := (n + 1, .error [])

/-- No answer of this database is longer than the error. -/
theorem repliesFit_countQueries (messages : List Message) :
    ∀ n, RepliesFit countQueries n messages := by
  induction messages with
  | nil => exact fun n m hm => (List.not_mem_nil hm).elim
  | cons m messages ih =>
    intro n m' hm'
    rw [respondAll_cons] at hm'
    rcases List.mem_cons.mp hm' with rfl | hm'
    · by_cases hquery : m.1 = .query
      · simp [respond, hquery, countQueries, Answer.message]
      · simp [respond, hquery, unknownMessageType]
    · exact ih _ m' hm'

/-- A query, a message of an unknown type, the end of the session and half a frame, one
byte for each call. -/
theorem handleClient_respondAll_counting :
    ∃ messages rest,
      frames [(.query, [49]), (⟨0⟩, []), (.terminate, [])] ++ [0, 0] = frames messages ++ rest ∧
      FitHeader messages ∧ NoFrame rest ∧
      (handleClient countQueries 5 0
          ⟨frames [(.query, [49]), (⟨0⟩, []), (.terminate, [])] ++ [0, 0], fun _ => 1⟩
          ⟨[], fun _ => 1⟩).1 = (respondAll countQueries 0 (served 5 messages)).1 ∧
      (handleClient countQueries 5 0
          ⟨frames [(.query, [49]), (⟨0⟩, []), (.terminate, [])] ++ [0, 0], fun _ => 1⟩
          ⟨[], fun _ => 1⟩).2.2.bytes =
        [] ++ frames (respondAll countQueries 0 (served 5 messages)).2 :=
  handleClient_respondAll countQueries 5 0 ⟨_, fun _ => 1⟩ ⟨[], fun _ => 1⟩
    (fun _ => Nat.one_pos) (fun _ => Nat.one_pos)
    fun messages _ => repliesFit_countQueries messages 0

end OneBase
