import OneBase.Server.HandleClient
import Mathlib.Order.OrderIsoNat

/-!
# A client and its server (`onebase_client/client_main.cpp`, `server_main.cpp`)

The client reads lines, joins them to statements, sends a statement and waits for the
answer before it reads on. The two ends run at the same time: the bytes of a message are
written and read in pieces, in any interleaving, over a stream that holds `room` bytes in
each direction, and the server may be told to stop at any time.

- `readLine`, `replQueries`: the loop of the client over the lines.
- `received`: what `RecvMessage` makes of the bytes it has; `recvMessage_received` ties
  it to the function over the stream.
- `SessionStep`: what either end does next.
- `SessionInv`: who waits for which bytes.
- `sessionRun_inOrder`: at any time the client has been shown the answers to a beginning
  of the statements, and the database has executed these and at most the one in progress.
- `sessionRun_answered`: no session gets stuck or goes on for ever, and one whose server
  is not stopped ends with each statement answered.
-/

namespace OneBase

open Cpp

variable {σ : Type}

/-! ## The loop of the client -/

/-- Model of `std::isspace` in the C locale. -/
def isSpace (c : UInt8) : Bool := c = 32 ∨ (9 ≤ c ∧ c ≤ 13)

/-- The two loops that trim a query (client_main.cpp:190–195). -/
def trim (query : List UInt8) : List UInt8 :=
  ((query.dropWhile isSpace).reverse.dropWhile isSpace).reverse

/-- The lines `\q`, `quit` and `exit`. -/
def quitLines : List (List UInt8) := [[92, 113], [113, 117, 105, 116], [101, 120, 105, 116]]

/-- The lines `\?` and `help`. -/
def helpLines : List (List UInt8) := [[92, 63], [104, 101, 108, 112]]

/-- What the client does with a line. -/
inductive ReplAction where
  | quit
  | next (queryBuf : List UInt8)
  | send (query : List UInt8)
  deriving DecidableEq

/-- Model of a round of the loop up to `SendMessage` (client_main.cpp:160–198). The
commands are recognised in the middle of a statement as well. -/
def readLine (queryBuf line : List UInt8) : ReplAction :=
  if line ∈ quitLines then .quit
  else if line ∈ helpLines then .next queryBuf
  else if line = [] then .next queryBuf
  else
    let queryBuf := queryBuf ++ line
    -- the semicolon
    if queryBuf.getLast? ≠ some 59 then .next (queryBuf ++ [32])
    else
      let query := trim queryBuf.dropLast
      if query = [] then .next [] else .send query

/-- The queries that the client sends for some lines. -/
def replQueries : List (List UInt8) → List UInt8 → List (List UInt8)
  | [], _ => []
  | line :: lines, queryBuf =>
    match readLine queryBuf line with
    | .quit => []
    | .next queryBuf => replQueries lines queryBuf
    | .send query => query :: replQueries lines []

/-! ## The messages in pieces -/

/-- What `RecvMessage` makes of the bytes that it has read so far. -/
inductive Received where
  /-- The call of `read` asks for so many bytes. -/
  | wants (count : Nat)
  | failed
  | complete (type : MessageType) (data : List UInt8)

/-- The state of `RecvMessage` (protocol.h) after some bytes. -/
def received (got : List UInt8) : Received :=
  if got.length < 4 then .wants (4 - got.length)
  else
    let payloadLen := htonl (natOf (got.take 4))
    if payloadLen = 0 then .failed
    else if got.length = 4 then .wants 1
    else if got.length < 4 + payloadLen then .wants (4 + payloadLen - got.length)
    else .complete ⟨(got.drop 4).headD 0⟩ ((got.drop 5).take (payloadLen - 1))

/-- The bytes that `SendMessage` writes. -/
def wire (m : Message) : List UInt8 :=
  bytesOf (htonl ((m.2.length + 1) % 2 ^ 32)) 4 ++ m.1.byte :: m.2

/-! ## The two ends -/

/-- Where the client is. -/
inductive ClientEnd where
  /-- before `std::getline` -/
  | prompt
  /-- in `SendMessage`, with the bytes left to write; `leaving` after `TERMINATE` -/
  | sending (rest : List UInt8) (leaving : Bool)
  /-- in `RecvMessage`, with the bytes read -/
  | receiving (got : List UInt8)
  | closed

/-- Where the thread of the server is. -/
inductive ServerEnd where
  | receiving (got : List UInt8)
  | sending (rest : List UInt8)
  | closed

/-- A connection: the database, the lines still to be typed and the statement in
progress, the two ends, the bytes on their way, what the client was shown, and whether
the server was told to stop. -/
structure Session (σ : Type) where
  db : σ
  lines : List (List UInt8)
  queryBuf : List UInt8 := []
  client : ClientEnd := .prompt
  server : ServerEnd := .receiving []
  toServer : List UInt8 := []
  toClient : List UInt8 := []
  shown : List Message := []
  stopped : Bool := false

/-- The client when `SendMessage` has these bytes left to write. -/
def ClientEnd.send (rest : List UInt8) (leaving : Bool) : ClientEnd :=
  if rest = [] then if leaving then .closed else .receiving [] else .sending rest leaving

/-- The server when `SendMessage` has these bytes left to write. -/
def ServerEnd.send (rest : List UInt8) : ServerEnd :=
  if rest = [] then .receiving [] else .sending rest

namespace Session

/-- The client after a line. -/
def readLine (s : Session σ) (line : List UInt8) (lines : List (List UInt8)) : Session σ :=
  match OneBase.readLine s.queryBuf line with
  | .quit => { s with lines, client := .send (wire (.terminate, [])) true }
  | .next queryBuf => { s with lines, queryBuf }
  | .send query => { s with lines, queryBuf := [], client := .send (wire (.query, query)) false }

/-- The server after a complete message. -/
def dispatch (execute : σ → List UInt8 → σ × Answer) (s : Session σ) (m : Message) : Session σ :=
  if m.1 = .terminate then { s with server := .closed }
  else
    { s with db := (respond execute s.db m).1, server := .send (wire (respond execute s.db m).2) }

end Session

/-- What either end does next. A call of `write` takes some of the bytes while there is
`room` for them, and a call of `read` takes some of those on their way. -/
inductive SessionStep (execute : σ → List UInt8 → σ × Answer) (room : Nat) :
    Session σ → Session σ → Prop
  | eof {s} : s.client = .prompt → s.lines = [] → SessionStep execute room s
      { s with client := .closed }
  | line {s line lines} : s.client = .prompt → s.lines = line :: lines →
      SessionStep execute room s (s.readLine line lines)
  | clientWrite {s rest leaving} (n) : s.client = .sending rest leaving → 0 < n →
      n ≤ rest.length → s.toServer.length + n ≤ room → SessionStep execute room s
      { s with client := .send (rest.drop n) leaving, toServer := s.toServer ++ rest.take n }
  /-- the write fails: `Connection lost.` -/
  | clientLost {s rest leaving} : s.client = .sending rest leaving → s.server = .closed →
      SessionStep execute room s { s with client := .closed }
  | clientRead {s got count} (n) : s.client = .receiving got → received got = .wants count →
      0 < n → n ≤ count → n ≤ s.toClient.length → SessionStep execute room s
      { s with client := .receiving (got ++ s.toClient.take n), toClient := s.toClient.drop n }
  /-- the stream ends: `Connection lost.` -/
  | clientEnd {s got count} : s.client = .receiving got → received got = .wants count →
      s.toClient = [] → s.server = .closed → SessionStep execute room s { s with client := .closed }
  | clientFailed {s got} : s.client = .receiving got → received got = .failed →
      SessionStep execute room s { s with client := .closed }
  | show {s got type data} : s.client = .receiving got → received got = .complete type data →
      SessionStep execute room s { s with client := .prompt, shown := s.shown ++ [(type, data)] }
  | serverRead {s got count} (n) : s.server = .receiving got → received got = .wants count →
      0 < n → n ≤ count → n ≤ s.toServer.length → SessionStep execute room s
      { s with server := .receiving (got ++ s.toServer.take n), toServer := s.toServer.drop n }
  | serverEnd {s got count} : s.server = .receiving got → received got = .wants count →
      s.toServer = [] → s.client = .closed → SessionStep execute room s { s with server := .closed }
  | serverFailed {s got} : s.server = .receiving got → received got = .failed →
      SessionStep execute room s { s with server := .closed }
  | dispatch {s got type data} : s.server = .receiving got →
      received got = .complete type data →
      SessionStep execute room s (s.dispatch execute (type, data))
  | serverWrite {s rest} (n) : s.server = .sending rest → 0 < n → n ≤ rest.length →
      s.toClient.length + n ≤ room → SessionStep execute room s
      { s with server := .send (rest.drop n), toClient := s.toClient ++ rest.take n }
  /-- the write fails, which `HandleQuery` does not notice -/
  | serverLost {s rest} : s.server = .sending rest → rest ≠ [] → s.client = .closed →
      SessionStep execute room s { s with server := .receiving [] }
  /-- `g_running` is false when the loop begins its next round -/
  | stop {s} : s.server = .receiving [] →
      SessionStep execute room s { s with server := .closed, stopped := true }

/-- A run of a session. -/
inductive SessionRun (execute : σ → List UInt8 → σ × Answer) (room : Nat) (db : σ)
    (lines : List (List UInt8)) : Session σ → Prop
  | start : SessionRun execute room db lines { db, lines }
  | step {s s'} : SessionRun execute room db lines s → SessionStep execute room s s' →
      SessionRun execute room db lines s'

/-! ## The messages in pieces, again -/

theorem wire_eq_frame {m : Message} (hfit : m.2.length + 1 < 2 ^ 32) : wire m = frame m.1 m.2 := by
  rw [wire, Nat.mod_eq_of_lt hfit, bytesOf_htonl, frame]

/-- The length that is read from the first four bytes of a frame. -/
theorem payloadLen_frame {type : MessageType} {data got rest more : List UInt8}
    (hfit : data.length + 1 < 2 ^ 32) (hgot : 4 ≤ got.length)
    (h : got ++ rest = frame type data ++ more) : htonl (natOf (got.take 4)) = data.length + 1 := by
  have hheader : (bytesOf (data.length + 1) 4).reverse.length = 4 := by
    rw [List.length_reverse, length_bytesOf]
  have htake := congrArg (List.take 4) h
  rw [List.take_append_of_le_length hgot, frame, List.append_assoc, List.take_left' hheader]
    at htake
  rw [htake, htonl_natOf hheader, List.reverse_reverse, natOf_bytesOf]
  exact Nat.mod_eq_of_lt hfit

theorem length_frame (type : MessageType) (data : List UInt8) :
    (frame type data).length = 5 + data.length := by
  rw [frame, List.length_append, List.length_reverse, length_bytesOf, List.length_cons]
  omega

/-- All of a frame is a complete message. -/
theorem received_frame {type : MessageType} {data : List UInt8} (hfit : data.length + 1 < 2 ^ 32)
    (more : List UInt8) : received (frame type data ++ more) = .complete type data := by
  have hheader : (bytesOf (data.length + 1) 4).reverse.length = 4 := by
    rw [List.length_reverse, length_bytesOf]
  have hlen : (frame type data ++ more).length = 5 + data.length + more.length := by
    rw [List.length_append, length_frame]
  have hpayload : htonl (natOf ((frame type data ++ more).take 4)) = data.length + 1 :=
    payloadLen_frame hfit (by omega) (List.append_nil _)
  have hdrop : (frame type data ++ more).drop 4 = type.byte :: (data ++ more) := by
    rw [frame, List.append_assoc, List.drop_left' hheader, List.cons_append]
  have hdrop' : (frame type data ++ more).drop 5 = data ++ more := by
    rw [← List.tail_drop, hdrop]
    rfl
  rw [received, if_neg (by omega)]
  simp only [hpayload, hdrop, hdrop']
  rw [if_neg (Nat.succ_ne_zero _), if_neg (by omega), if_neg (by omega), Nat.add_sub_cancel,
    List.take_left]
  rfl

/-- Before the last piece of a frame, some of the bytes that are still to come are asked
for. -/
theorem received_partial {type : MessageType} {data got rest : List UInt8}
    (hfit : data.length + 1 < 2 ^ 32) (h : got ++ rest = frame type data) (hne : rest ≠ []) :
    ∃ count, 0 < count ∧ count ≤ rest.length ∧ received got = .wants count := by
  have hpos := List.length_pos_iff.mpr hne
  have hcount := congrArg List.length h
  rw [List.length_append, length_frame] at hcount
  by_cases hshort : got.length < 4
  · exact ⟨4 - got.length, by omega, by omega, by rw [received, if_pos hshort]⟩
  · -- the header has been read
    have hpayload : htonl (natOf (got.take 4)) = data.length + 1 :=
      payloadLen_frame hfit (Nat.not_lt.mp hshort) (h.trans (List.append_nil _).symm)
    rw [received, if_neg hshort]
    simp only [hpayload]
    rw [if_neg (Nat.succ_ne_zero _)]
    by_cases hfour : got.length = 4
    · exact ⟨1, Nat.one_pos, hpos, by rw [if_pos hfour]⟩
    · refine ⟨4 + (data.length + 1) - got.length, by omega, by omega, ?_⟩
      rw [if_neg hfour, if_pos (by omega)]

/-- A complete message is a frame. -/
theorem frame_of_received {got data : List UInt8} {type : MessageType}
    (h : received got = .complete type data) :
    data.length + 1 < 2 ^ 32 ∧ ∃ more, got = frame type data ++ more := by
  rw [received] at h
  by_cases hshort : got.length < 4
  · rw [if_pos hshort] at h
    cases h
  · have hnet : (got.take 4).length = 4 := by
      rw [List.length_take]
      omega
    rw [if_neg hshort] at h
    simp only [htonl_natOf hnet] at h
    by_cases hzero : natOf (got.take 4).reverse = 0
    · rw [if_pos hzero] at h
      cases h
    · rw [if_neg hzero] at h
      by_cases hfour : got.length = 4
      · rw [if_pos hfour] at h
        cases h
      · rw [if_neg hfour] at h
        by_cases hlong : got.length < 4 + natOf (got.take 4).reverse
        · rw [if_pos hlong] at h
          cases h
        · rw [if_neg hlong] at h
          injection h with htype hdata
          -- the bytes after the header
          have hgot : got = got.take 4 ++ type.byte :: got.drop 5 := by
            rw [← htype]
            show got = got.take 4 ++ (got.drop 4).headD 0 :: got.drop 5
            have hcons : got.drop 4 = (got.drop 4).headD 0 :: got.drop 5 := by
              cases hdrop : got.drop 4 with
              | nil =>
                have := congrArg List.length hdrop
                rw [List.length_drop, List.length_nil] at this
                omega
              | cons c rest =>
                have htail : got.drop 5 = rest := by
                  rw [← List.tail_drop, hdrop]
                  rfl
                rw [htail]
                rfl
            rw [← hcons, List.take_append_drop]
          have hdrop : natOf (got.take 4).reverse - 1 ≤ (got.drop 5).length := by
            rw [List.length_drop]
            omega
          obtain ⟨hfit, hframe⟩ := eq_frame hnet hzero type.byte hdrop
          rw [← hgot, hdata] at hframe
          rw [hdata] at hfit
          exact ⟨hfit, _, hframe⟩

/-- **`RecvMessage` in pieces.** What the bytes read so far are said to make is what the
function over the stream returns. -/
theorem recvMessage_received {s : Inbound} (hpos : s.Positive) {got rest : List UInt8}
    (hbytes : s.bytes = got ++ rest) (type : MessageType) (data : List UInt8) :
    match received got with
    | .complete type' data' => ∃ s', s'.Positive ∧
        recvMessage s type data = (true, type', data', s')
    | .failed => (recvMessage s type data).1 = false
    | .wants _ => rest = [] → (recvMessage s type data).1 = false := by
  cases hreceived : received got with
  | complete type' data' =>
    obtain ⟨hfit, more, hgot⟩ := frame_of_received hreceived
    rw [hgot, List.append_assoc] at hbytes
    obtain ⟨s', hpos', -, heq⟩ := recvMessage_frame hpos type data hfit hbytes
    exact ⟨s', hpos', heq⟩
  | failed =>
    show (recvMessage s type data).1 = false
    rw [Bool.eq_false_iff]
    intro htrue
    obtain ⟨type', data', rest', hfit, hframe⟩ := frame_of_recvMessage hpos htrue
    rw [received] at hreceived
    by_cases hshort : got.length < 4
    · rw [if_pos hshort] at hreceived
      cases hreceived
    · rw [if_neg hshort] at hreceived
      simp only [payloadLen_frame hfit (Nat.not_lt.mp hshort) (hbytes.symm.trans hframe)]
        at hreceived
      rw [if_neg (Nat.succ_ne_zero _)] at hreceived
      split_ifs at hreceived
  | wants count =>
    intro hrest
    rw [Bool.eq_false_iff]
    intro htrue
    obtain ⟨type', data', rest', hfit, hframe⟩ := frame_of_recvMessage hpos htrue
    rw [hbytes, hrest, List.append_nil] at hframe
    rw [hframe, received_frame hfit] at hreceived
    cases hreceived

/-! ## No session goes on for ever -/

/-- How far the client is from its end, within a line. -/
def ClientEnd.rank : ClientEnd → Nat
  | .closed => 0
  | .prompt => 1
  | .receiving _ => 2
  | .sending _ _ => 3

/-- The bytes that the client has left to write. -/
def ClientEnd.unsent : ClientEnd → List UInt8
  | .sending rest _ => rest
  | _ => []

/-- The bytes that the server has left to write. -/
def ServerEnd.unsent : ServerEnd → List UInt8
  | .sending rest => rest
  | _ => []

/-- The bytes that the server has of a message. -/
def ServerEnd.got : ServerEnd → List UInt8
  | .receiving got => got
  | _ => []

/-- One while the server has not closed the connection. -/
def ServerEnd.opened : ServerEnd → Nat
  | .closed => 0
  | _ => 1

/-- What each step makes smaller: the lines; then, within a line, where the client is; the
way that its bytes have to go; whether the server is there; the way that the bytes of the
answer have to go. -/
def Session.measure (s : Session σ) : Nat × Nat × Nat × Nat × Nat :=
  (s.lines.length, s.client.rank,
    3 * s.client.unsent.length + 2 * s.toServer.length + s.server.got.length, s.server.opened,
    2 * s.server.unsent.length + s.toClient.length)

/-- The order of the measure. -/
abbrev Shorter : Nat × Nat × Nat × Nat × Nat → Nat × Nat × Nat × Nat × Nat → Prop :=
  Prod.Lex (· < ·) (Prod.Lex (· < ·) (Prod.Lex (· < ·) (Prod.Lex (· < ·) (· < ·))))

@[simp] theorem ClientEnd.unsent_send (rest : List UInt8) (leaving : Bool) :
    (ClientEnd.send rest leaving).unsent = rest := by
  by_cases hrest : rest = [] <;> cases leaving <;> simp [ClientEnd.send, ClientEnd.unsent, hrest]

@[simp] theorem ServerEnd.unsent_send (rest : List UInt8) :
    (ServerEnd.send rest).unsent = rest := by
  by_cases hrest : rest = [] <;> simp [ServerEnd.send, ServerEnd.unsent, hrest]

@[simp] theorem ServerEnd.got_send (rest : List UInt8) : (ServerEnd.send rest).got = [] := by
  by_cases hrest : rest = [] <;> simp [ServerEnd.send, ServerEnd.got, hrest]

theorem ClientEnd.send_eq_sending {rest rest' : List UInt8} {leaving leaving' : Bool}
    (h : ClientEnd.send rest leaving = .sending rest' leaving') :
    rest' = rest ∧ leaving' = leaving := by
  rw [ClientEnd.send] at h
  split_ifs at h
  cases h
  exact ⟨rfl, rfl⟩

theorem ClientEnd.send_eq_receiving {rest got : List UInt8} {leaving : Bool}
    (h : ClientEnd.send rest leaving = .receiving got) :
    rest = [] ∧ got = [] ∧ leaving = false := by
  rw [ClientEnd.send] at h
  split_ifs at h with hrest hleaving
  cases h
  exact ⟨hrest, rfl, Bool.eq_false_iff.mpr hleaving⟩

theorem ClientEnd.send_eq_closed {rest : List UInt8} {leaving : Bool}
    (h : ClientEnd.send rest leaving = .closed) : rest = [] ∧ leaving = true := by
  rw [ClientEnd.send] at h
  split_ifs at h with hrest hleaving
  exact ⟨hrest, hleaving⟩

theorem ClientEnd.send_ne_prompt (rest : List UInt8) (leaving : Bool) :
    ClientEnd.send rest leaving ≠ .prompt := by
  rw [ClientEnd.send]
  split_ifs <;> exact fun h => nomatch h

theorem ServerEnd.send_eq_sending {rest rest' : List UInt8}
    (h : ServerEnd.send rest = .sending rest') : rest' = rest := by
  rw [ServerEnd.send] at h
  split_ifs at h
  cases h
  rfl

theorem ServerEnd.send_eq_receiving {rest got : List UInt8}
    (h : ServerEnd.send rest = .receiving got) : rest = [] ∧ got = [] := by
  rw [ServerEnd.send] at h
  split_ifs at h with hrest
  cases h
  exact ⟨hrest, rfl⟩

theorem ServerEnd.send_ne_closed (rest : List UInt8) : ServerEnd.send rest ≠ .closed := by
  rw [ServerEnd.send]
  split_ifs <;> exact fun h => nomatch h

theorem Session.lines_readLine (s : Session σ) (line : List UInt8) (lines : List (List UInt8)) :
    (s.readLine line lines).lines = lines := by
  rw [Session.readLine]
  split <;> rfl

theorem lex_of_le {β : Type} {r : β → β → Prop} {m n : Nat} {b c : β} (hle : m ≤ n)
    (hr : r b c) : Prod.Lex (· < ·) r (m, b) (n, c) := by
  rcases Nat.lt_or_eq_of_le hle with hlt | rfl
  · exact .left _ _ hlt
  · exact .right _ hr

/-- Each step makes the measure smaller. -/
theorem SessionStep.shorter {execute : σ → List UInt8 → σ × Answer} {room : Nat}
    {s s' : Session σ} (h : SessionStep execute room s s') : Shorter s'.measure s.measure := by
  cases h with
  | eof hclient hlines =>
    exact .right _ (.left _ _ (by rw [hclient]; exact Nat.zero_lt_one))
  | @line line lines hclient hlines =>
    refine .left _ _ ?_
    rw [Session.lines_readLine, hlines]
    exact Nat.lt_succ_self _
  | @clientWrite rest leaving n hclient hpos hle hroom =>
    refine .right _ (lex_of_le ?_ (.left _ _ ?_))
    · rw [hclient]
      show ClientEnd.rank (.send (rest.drop n) leaving) ≤ 3
      rw [ClientEnd.send]
      split_ifs <;> simp [ClientEnd.rank]
    · have hunsent : s.client.unsent = rest := by rw [hclient]; rfl
      simp only [ClientEnd.unsent_send, hunsent, List.length_append, List.length_drop,
        List.length_take]
      omega
  | clientLost hclient hserver =>
    exact .right _ (.left _ _ (by rw [hclient]; exact Nat.zero_lt_succ 2))
  | clientRead n hclient hwants hpos hle hflight =>
    refine .right _ (lex_of_le (by rw [hclient]; exact Nat.le_refl 2) (lex_of_le ?_ (.right _ ?_)))
    · rw [hclient]
      exact Nat.le_refl _
    · simp only [List.length_drop]
      omega
  | clientEnd hclient hwants hflight hserver =>
    exact .right _ (.left _ _ (by rw [hclient]; exact Nat.zero_lt_succ 1))
  | clientFailed hclient hfailed =>
    exact .right _ (.left _ _ (by rw [hclient]; exact Nat.zero_lt_succ 1))
  | «show» hclient hcomplete =>
    exact .right _ (.left _ _ (by rw [hclient]; exact Nat.lt_succ_self 1))
  | serverRead n hserver hwants hpos hle hflight =>
    refine .right _ (.right _ (.left _ _ ?_))
    simp only [hserver, ServerEnd.got, List.length_append, List.length_drop, List.length_take]
    omega
  | serverEnd hserver hwants hflight hclient =>
    refine .right _ (.right _ (lex_of_le ?_ (.left _ _ (by rw [hserver]; exact Nat.zero_lt_one))))
    exact Nat.add_le_add_left (Nat.zero_le _) _
  | serverFailed hserver hfailed =>
    refine .right _ (.right _ (lex_of_le ?_ (.left _ _ (by rw [hserver]; exact Nat.zero_lt_one))))
    exact Nat.add_le_add_left (Nat.zero_le _) _
  | @dispatch got type data hserver hcomplete =>
    -- a message has five bytes at least
    obtain ⟨-, more, rfl⟩ := frame_of_received hcomplete
    have hgot : 0 < s.server.got.length := by
      rw [hserver, ServerEnd.got, List.length_append, length_frame]
      omega
    rw [Session.dispatch]
    split_ifs with hterminate
    · exact .right _ (.right _ (.left _ _ (Nat.add_lt_add_left hgot _)))
    · refine .right _ (.right _ (.left _ _ ?_))
      rw [ServerEnd.got_send]
      exact Nat.add_lt_add_left hgot _
  | @serverWrite rest n hserver hpos hle hroom =>
    refine .right _ (.right _ (lex_of_le ?_ (lex_of_le ?_ ?_)))
    · rw [ServerEnd.got_send]
      exact Nat.add_le_add_left (Nat.zero_le _) _
    · rw [hserver]
      show ServerEnd.opened (.send (rest.drop n)) ≤ 1
      rw [ServerEnd.send]
      split_ifs <;> exact Nat.le_refl 1
    · have hunsent : s.server.unsent = rest := by rw [hserver]; rfl
      simp only [ServerEnd.unsent_send, hunsent, List.length_append, List.length_drop,
        List.length_take]
      omega
  | @serverLost rest hserver hrest hclient =>
    have hpos := List.length_pos_iff.mpr hrest
    refine .right _ (.right _ (lex_of_le ?_ (lex_of_le (by rw [hserver]; exact Nat.le_refl 1) ?_)))
    · exact Nat.add_le_add_left (Nat.zero_le _) _
    · simp only [hserver, ServerEnd.unsent, List.length_nil]
      omega
  | stop hserver =>
    refine .right _ (.right _ (lex_of_le ?_ (.left _ _ (by rw [hserver]; exact Nat.zero_lt_one))))
    exact Nat.add_le_add_left (Nat.zero_le _) _

/-- No session takes steps for ever. -/
theorem SessionStep.terminates (execute : σ → List UInt8 → σ × Answer) (room : Nat)
    (f : Nat → Session σ) : ∃ n, ¬ SessionStep execute room (f n) (f (n + 1)) := by
  have hwf : WellFounded Shorter :=
    (Prod.lex (measure id) (Prod.lex (measure id) (Prod.lex (measure id)
      (Prod.lex (measure id) (measure id))))).wf
  have : IsWellFounded _ Shorter := ⟨hwf⟩
  obtain ⟨n, hn⟩ := WellFounded.not_rel_apply_succ (r := Shorter) fun n => (f n).measure
  exact ⟨n, fun hstep => hn hstep.shorter⟩

/-! ## Who waits for which bytes -/

/-- The queries as messages. -/
def said (queries : List (List UInt8)) : List Message := queries.map fun query => (.query, query)

/-- The server was told to stop and has closed the connection. -/
def Session.Down (s : Session σ) : Prop := s.server = .closed ∧ s.stopped = true

/-- Where a session is, given the answers so far and the queries still to be executed. The
bytes of the message in progress are with its reader, on their way or with its writer. -/
inductive SessionPhase (s : Session σ) (replies : List Message) (todo : List (List UInt8)) : Prop
  | idle : s.client = .prompt → s.toClient = [] → s.shown = replies →
      todo = replQueries s.lines s.queryBuf →
      (s.server = .receiving [] ∧ s.toServer = [] ∨ s.Down) → SessionPhase s replies todo
  | request (query rest) : s.client = .send rest false → s.toClient = [] → s.shown = replies →
      todo = query :: replQueries s.lines [] → s.queryBuf = [] →
      ((∃ got, s.server = .receiving got ∧ got ++ (s.toServer ++ rest) = frame .query query) ∨
        s.Down) → SessionPhase s replies todo
  | reply (r : Message) (got rest) : s.client = .receiving got → s.toServer = [] →
      replies = s.shown ++ [r] → todo = replQueries s.lines [] → s.queryBuf = [] →
      r.2.length + 1 < 2 ^ 32 → (s.server = .send rest ∨ s.Down ∧ rest = []) →
      got ++ (s.toClient ++ rest) = frame r.1 r.2 → SessionPhase s replies todo
  | leaving (rest) : s.client = .send rest true → s.toClient = [] → s.shown = replies → todo = [] →
      ((∃ got, s.server = .receiving got ∧ got ++ (s.toServer ++ rest) = frame .terminate []) ∨
        s.Down) → SessionPhase s replies todo
  | ended : s.client = .closed → s.shown = replies → (todo = [] ∨ s.stopped = true) →
      (s.server = .receiving [] ∧ s.toServer = [] ∨ s.server = .closed) →
      SessionPhase s replies todo

/-- What a step does to the answers: nothing, or the server answers the next query. -/
def Advances (execute : σ → List UInt8 → σ × Answer) (s s' : Session σ) (replies : List Message)
    (todo : List (List UInt8)) : Prop :=
  s'.db = s.db ∧ SessionPhase s' replies todo ∨
    ∃ query later, todo = query :: later ∧ s'.db = (respond execute s.db (.query, query)).1 ∧
      SessionPhase s' (replies ++ [(respond execute s.db (.query, query)).2]) later

/-- The queries and the answer to the next one fit the header. -/
def NextFits (execute : σ → List UInt8 → σ × Answer) (db : σ) (todo : List (List UInt8)) : Prop :=
  ∀ query ∈ todo.head?, query.length + 1 < 2 ^ 32 ∧
    (respond execute db (.query, query)).2.2.length + 1 < 2 ^ 32

theorem received_nil : received [] = .wants 4 := rfl

/-- The bytes of a frame are not malformed. -/
theorem received_ne_failed {type : MessageType} {data got rest : List UInt8}
    (hfit : data.length + 1 < 2 ^ 32) (h : got ++ rest = frame type data) :
    received got ≠ .failed := by
  by_cases hrest : rest = []
  · rw [hrest, List.append_nil] at h
    rw [h, ← List.append_nil (frame type data), received_frame hfit]
    exact fun h => nomatch h
  · obtain ⟨count, -, -, hwants⟩ := received_partial hfit h hrest
    rw [hwants]
    exact fun h => nomatch h

/-- The bytes of a frame are a message when none is missing, and then they are this
message. -/
theorem received_complete {type type' : MessageType} {data data' got rest : List UInt8}
    (hfit : data.length + 1 < 2 ^ 32) (h : got ++ rest = frame type data)
    (hcomplete : received got = .complete type' data') :
    rest = [] ∧ type' = type ∧ data' = data := by
  by_cases hrest : rest = []
  · rw [hrest, List.append_nil] at h
    rw [h, ← List.append_nil (frame type data), received_frame hfit] at hcomplete
    injection hcomplete with htype hdata
    exact ⟨hrest, htype.symm, hdata.symm⟩
  · obtain ⟨count, -, -, hwants⟩ := received_partial hfit h hrest
    rw [hwants] at hcomplete
    cases hcomplete

variable {execute : σ → List UInt8 → σ × Answer} {room : Nat} {s s' : Session σ}
  {replies : List Message} {todo : List (List UInt8)}

/-- A line begins a request, ends the session or only adds to the statement. -/
theorem phase_readLine {line : List UInt8} {lines : List (List UInt8)}
    (hfits : NextFits execute s.db todo) (hclient : s.client = .prompt)
    (htoClient : s.toClient = [])
    (hshown : s.shown = replies) (htodo : todo = replQueries (line :: lines) s.queryBuf)
    (hserver : s.server = .receiving [] ∧ s.toServer = [] ∨ s.Down) :
    SessionPhase (s.readLine line lines) replies todo := by
  rw [replQueries] at htodo
  rw [Session.readLine]
  cases hline : readLine s.queryBuf line with
  | quit =>
    rw [hline] at htodo
    refine .leaving (wire (.terminate, [])) rfl htoClient hshown htodo
      (hserver.imp (fun h => ⟨[], h.1, ?_⟩) id)
    rw [show s.toServer = [] from h.2]
    exact wire_eq_frame (by simp)
  | next queryBuf =>
    rw [hline] at htodo
    exact .idle hclient htoClient hshown htodo hserver
  | send query =>
    rw [hline] at htodo
    have hfit := (hfits query (by rw [htodo]; rfl)).1
    refine .request query (wire (.query, query)) rfl htoClient hshown htodo rfl
      (hserver.imp (fun h => ⟨[], h.1, ?_⟩) id)
    rw [show s.toServer = [] from h.2]
    exact wire_eq_frame hfit

/-- A step before a line is read. -/
theorem idle_step (hstep : SessionStep execute room s s') (hfits : NextFits execute s.db todo)
    (hclient : s.client = .prompt) (htoClient : s.toClient = []) (hshown : s.shown = replies)
    (htodo : todo = replQueries s.lines s.queryBuf)
    (hserver : s.server = .receiving [] ∧ s.toServer = [] ∨ s.Down) :
    Advances execute s s' replies todo := by
  cases hstep with
  | eof _ hlines =>
    rw [hlines] at htodo
    exact .inl ⟨rfl, .ended rfl hshown (.inl htodo) (hserver.imp id And.left)⟩
  | @line line lines _ hlines =>
    rw [hlines] at htodo
    refine .inl ⟨?_, phase_readLine hfits hclient htoClient hshown htodo hserver⟩
    rw [Session.readLine]
    split <;> rfl
  | stop hreceiving =>
    exact .inl ⟨rfl, .idle hclient htoClient hshown htodo (.inr ⟨rfl, rfl⟩)⟩
  | serverRead n hreceiving hwants hpos hle hflight =>
    rcases hserver with ⟨-, htoServer⟩ | hdown
    · rw [htoServer] at hflight
      exact absurd hpos (Nat.not_lt.mpr hflight)
    · rw [hdown.1] at hreceiving
      cases hreceiving
  | serverFailed hreceiving hfailed =>
    rcases hserver with ⟨hserver, -⟩ | hdown
    · rw [hserver] at hreceiving
      cases hreceiving
      cases hfailed
    · rw [hdown.1] at hreceiving
      cases hreceiving
  | dispatch hreceiving hcomplete =>
    rcases hserver with ⟨hserver, -⟩ | hdown
    · rw [hserver] at hreceiving
      cases hreceiving
      cases hcomplete
    · rw [hdown.1] at hreceiving
      cases hreceiving
  | _ => simp_all [Session.Down]

/-- A step while a query is on its way. The server has no part of an answer, so the client
can only write. -/
theorem request_step (hstep : SessionStep execute room s s') (hfits : NextFits execute s.db todo)
    {query rest : List UInt8} (hclient : s.client = .send rest false) (htoClient : s.toClient = [])
    (hshown : s.shown = replies) (htodo : todo = query :: replQueries s.lines [])
    (hbuf : s.queryBuf = [])
    (hserver : (∃ got, s.server = .receiving got ∧
      got ++ (s.toServer ++ rest) = frame .query query) ∨ s.Down) :
    Advances execute s s' replies todo := by
  obtain ⟨hfit, hreply⟩ := hfits query (by rw [htodo]; rfl)
  cases hstep with
  | eof hprompt _ => exact absurd (hclient.symm.trans hprompt) (ClientEnd.send_ne_prompt _ _)
  | line hprompt _ => exact absurd (hclient.symm.trans hprompt) (ClientEnd.send_ne_prompt _ _)
  | clientWrite n hsending hpos hle hroom =>
    obtain ⟨rfl, rfl⟩ := ClientEnd.send_eq_sending (hclient.symm.trans hsending)
    refine .inl ⟨rfl, .request query _ rfl htoClient hshown htodo hbuf (hserver.imp ?_ id)⟩
    rintro ⟨got, hgot, hframe⟩
    refine ⟨got, hgot, ?_⟩
    rw [List.append_assoc, List.take_append_drop]
    exact hframe
  | clientLost hsending hclosed =>
    rcases hserver with ⟨got, hgot, -⟩ | hdown
    · rw [hgot] at hclosed
      cases hclosed
    · exact .inl ⟨rfl, .ended rfl hshown (.inr hdown.2) (.inr hclosed)⟩
  | clientRead n hreceiving hwants hpos hle hflight =>
    rw [htoClient] at hflight
    exact absurd hpos (Nat.not_lt.mpr hflight)
  | clientEnd hreceiving hwants hflight hclosed =>
    rcases hserver with ⟨got, hgot, -⟩ | hdown
    · rw [hgot] at hclosed
      cases hclosed
    · exact .inl ⟨rfl, .ended rfl hshown (.inr hdown.2) (.inr hclosed)⟩
  | clientFailed hreceiving hfailed =>
    obtain ⟨-, rfl, -⟩ := ClientEnd.send_eq_receiving (hclient.symm.trans hreceiving)
    cases hfailed
  | «show» hreceiving hcomplete =>
    obtain ⟨-, rfl, -⟩ := ClientEnd.send_eq_receiving (hclient.symm.trans hreceiving)
    cases hcomplete
  | stop hreceiving =>
    exact .inl ⟨rfl, .request query _ hclient htoClient hshown htodo hbuf (.inr ⟨rfl, rfl⟩)⟩
  | serverRead n hreceiving hwants hpos hle hflight =>
    rcases hserver with ⟨got, hgot, hframe⟩ | hdown
    · cases hgot.symm.trans hreceiving
      refine .inl ⟨rfl, .request query _ hclient htoClient hshown htodo hbuf (.inl ⟨_, rfl, ?_⟩)⟩
      rw [List.append_assoc, ← List.append_assoc (List.take _ _), List.take_append_drop]
      exact hframe
    · cases hdown.1.symm.trans hreceiving
  | serverEnd hreceiving hwants hflight hclosed =>
    cases (ClientEnd.send_eq_closed (hclient.symm.trans hclosed)).2
  | serverFailed hreceiving hfailed =>
    rcases hserver with ⟨got, hgot, hframe⟩ | hdown
    · cases hgot.symm.trans hreceiving
      exact absurd hfailed (received_ne_failed hfit hframe)
    · cases hdown.1.symm.trans hreceiving
  | dispatch hreceiving hcomplete =>
    rcases hserver with ⟨got, hgot, hframe⟩ | hdown
    · cases hgot.symm.trans hreceiving
      -- the whole query is there: it is executed, and the client waits for the answer
      obtain ⟨hnil, rfl, rfl⟩ := received_complete hfit hframe hcomplete
      obtain ⟨htoServer, rfl⟩ := List.append_eq_nil_iff.mp hnil
      refine .inr ⟨_, _, htodo, rfl, ?_⟩
      refine .reply _ [] (wire (respond execute s.db (.query, _)).2) hclient htoServer
        (by rw [← hshown]; rfl) rfl hbuf hreply (.inl rfl) ?_
      show [] ++ (s.toClient ++ _) = _
      rw [htoClient]
      exact wire_eq_frame hreply
    · cases hdown.1.symm.trans hreceiving
  | serverWrite n hsending _ _ _ =>
    rcases hserver with ⟨got, hgot, -⟩ | hdown
    · cases hgot.symm.trans hsending
    · cases hdown.1.symm.trans hsending
  | serverLost hsending _ _ =>
    rcases hserver with ⟨got, hgot, -⟩ | hdown
    · cases hgot.symm.trans hsending
    · cases hdown.1.symm.trans hsending

/-- A step while an answer is on its way. -/
theorem reply_step (hstep : SessionStep execute room s s') {r : Message} {got rest : List UInt8}
    (hclient : s.client = .receiving got) (htoServer : s.toServer = [])
    (hreplies : replies = s.shown ++ [r]) (htodo : todo = replQueries s.lines [])
    (hbuf : s.queryBuf = []) (hfit : r.2.length + 1 < 2 ^ 32)
    (hserver : s.server = .send rest ∨ s.Down ∧ rest = [])
    (hframe : got ++ (s.toClient ++ rest) = frame r.1 r.2) :
    Advances execute s s' replies todo := by
  cases hstep with
  | eof hprompt _ => cases hclient.symm.trans hprompt
  | line hprompt _ => cases hclient.symm.trans hprompt
  | clientWrite n hsending _ _ _ => cases hclient.symm.trans hsending
  | clientLost hsending _ => cases hclient.symm.trans hsending
  | clientRead n hreceiving hwants hpos hle hflight =>
    cases hclient.symm.trans hreceiving
    refine .inl ⟨rfl, .reply r _ rest rfl htoServer hreplies htodo hbuf hfit hserver ?_⟩
    rw [List.append_assoc, ← List.append_assoc (List.take _ _), List.take_append_drop]
    exact hframe
  | clientEnd hreceiving hwants hflight hclosed =>
    -- the server has closed only after it wrote the answer
    cases hclient.symm.trans hreceiving
    rcases hserver with hserver | ⟨-, rfl⟩
    · exact absurd (hserver.symm.trans hclosed) (ServerEnd.send_ne_closed _)
    · rw [hflight, List.append_nil, List.append_nil] at hframe
      rw [hframe, ← List.append_nil (frame r.1 r.2), received_frame hfit] at hwants
      cases hwants
  | clientFailed hreceiving hfailed =>
    cases hclient.symm.trans hreceiving
    exact absurd hfailed (received_ne_failed hfit hframe)
  | «show» hreceiving hcomplete =>
    cases hclient.symm.trans hreceiving
    obtain ⟨hnil, rfl, rfl⟩ := received_complete hfit hframe hcomplete
    obtain ⟨htoClient, rfl⟩ := List.append_eq_nil_iff.mp hnil
    refine .inl ⟨rfl, .idle rfl htoClient hreplies.symm (by rw [htodo, hbuf]) ?_⟩
    exact hserver.imp (fun h => ⟨h, htoServer⟩) And.left
  | stop hreceiving =>
    refine .inl ⟨rfl, .reply r got rest hclient htoServer hreplies htodo hbuf hfit
      (.inr ⟨⟨rfl, rfl⟩, ?_⟩) hframe⟩
    rcases hserver with hserver | ⟨-, hrest⟩
    · exact (ServerEnd.send_eq_receiving (hserver.symm.trans hreceiving)).1
    · exact hrest
  | serverRead n hreceiving hwants hpos hle hflight =>
    rw [htoServer] at hflight
    exact absurd hpos (Nat.not_lt.mpr hflight)
  | serverEnd hreceiving hwants hflight hclosed => cases hclient.symm.trans hclosed
  | serverFailed hreceiving hfailed =>
    rcases hserver with hserver | ⟨hdown, -⟩
    · obtain ⟨-, rfl⟩ := ServerEnd.send_eq_receiving (hserver.symm.trans hreceiving)
      cases hfailed
    · cases hdown.1.symm.trans hreceiving
  | dispatch hreceiving hcomplete =>
    rcases hserver with hserver | ⟨hdown, -⟩
    · obtain ⟨-, rfl⟩ := ServerEnd.send_eq_receiving (hserver.symm.trans hreceiving)
      cases hcomplete
    · cases hdown.1.symm.trans hreceiving
  | serverWrite n hsending hpos hle hroom =>
    rcases hserver with hserver | ⟨hdown, -⟩
    · obtain rfl := ServerEnd.send_eq_sending (hserver.symm.trans hsending)
      refine .inl ⟨rfl, .reply r got _ hclient htoServer hreplies htodo hbuf hfit (.inl rfl) ?_⟩
      rw [List.append_assoc, List.take_append_drop]
      exact hframe
    · cases hdown.1.symm.trans hsending
  | serverLost hsending hrest hclosed => cases hclient.symm.trans hclosed

/-- A step while the client says that it leaves. -/
theorem leaving_step (hstep : SessionStep execute room s s') {rest : List UInt8}
    (hclient : s.client = .send rest true) (htoClient : s.toClient = [])
    (hshown : s.shown = replies) (htodo : todo = [])
    (hserver : (∃ got, s.server = .receiving got ∧
      got ++ (s.toServer ++ rest) = frame .terminate []) ∨ s.Down) :
    Advances execute s s' replies todo := by
  cases hstep with
  | eof hprompt _ => exact absurd (hclient.symm.trans hprompt) (ClientEnd.send_ne_prompt _ _)
  | line hprompt _ => exact absurd (hclient.symm.trans hprompt) (ClientEnd.send_ne_prompt _ _)
  | clientWrite n hsending hpos hle hroom =>
    obtain ⟨rfl, rfl⟩ := ClientEnd.send_eq_sending (hclient.symm.trans hsending)
    refine .inl ⟨rfl, .leaving _ rfl htoClient hshown htodo (hserver.imp ?_ id)⟩
    rintro ⟨got, hgot, hframe⟩
    refine ⟨got, hgot, ?_⟩
    rw [List.append_assoc, List.take_append_drop]
    exact hframe
  | clientLost hsending hclosed =>
    exact .inl ⟨rfl, .ended rfl hshown (.inl htodo) (.inr hclosed)⟩
  | clientRead n hreceiving _ _ _ _ =>
    cases (ClientEnd.send_eq_receiving (hclient.symm.trans hreceiving)).2.2
  | clientEnd hreceiving _ _ _ =>
    cases (ClientEnd.send_eq_receiving (hclient.symm.trans hreceiving)).2.2
  | clientFailed hreceiving _ =>
    cases (ClientEnd.send_eq_receiving (hclient.symm.trans hreceiving)).2.2
  | «show» hreceiving _ =>
    cases (ClientEnd.send_eq_receiving (hclient.symm.trans hreceiving)).2.2
  | stop hreceiving =>
    exact .inl ⟨rfl, .leaving _ hclient htoClient hshown htodo (.inr ⟨rfl, rfl⟩)⟩
  | serverRead n hreceiving hwants hpos hle hflight =>
    rcases hserver with ⟨got, hgot, hframe⟩ | hdown
    · cases hgot.symm.trans hreceiving
      refine .inl ⟨rfl, .leaving _ hclient htoClient hshown htodo (.inl ⟨_, rfl, ?_⟩)⟩
      rw [List.append_assoc, ← List.append_assoc (List.take _ _), List.take_append_drop]
      exact hframe
    · cases hdown.1.symm.trans hreceiving
  | serverEnd hreceiving hwants hflight hclosed =>
    -- the client has closed, so all of the message is there
    obtain ⟨rfl, -⟩ := ClientEnd.send_eq_closed (hclient.symm.trans hclosed)
    rcases hserver with ⟨got, hgot, hframe⟩ | hdown
    · cases hgot.symm.trans hreceiving
      rw [hflight, List.append_nil, List.append_nil] at hframe
      rw [hframe, ← List.append_nil (frame .terminate []), received_frame (by simp)] at hwants
      cases hwants
    · cases hdown.1.symm.trans hreceiving
  | serverFailed hreceiving hfailed =>
    rcases hserver with ⟨got, hgot, hframe⟩ | hdown
    · cases hgot.symm.trans hreceiving
      exact absurd hfailed (received_ne_failed (by simp) hframe)
    · cases hdown.1.symm.trans hreceiving
  | dispatch hreceiving hcomplete =>
    rcases hserver with ⟨got, hgot, hframe⟩ | hdown
    · cases hgot.symm.trans hreceiving
      obtain ⟨hnil, rfl, rfl⟩ := received_complete (by simp) hframe hcomplete
      obtain ⟨htoServer, rfl⟩ := List.append_eq_nil_iff.mp hnil
      exact .inl ⟨rfl, .ended hclient hshown (.inl htodo) (.inr rfl)⟩
    · cases hdown.1.symm.trans hreceiving
  | serverWrite n hsending _ _ _ =>
    rcases hserver with ⟨got, hgot, -⟩ | hdown
    · cases hgot.symm.trans hsending
    · cases hdown.1.symm.trans hsending
  | serverLost hsending _ _ =>
    rcases hserver with ⟨got, hgot, -⟩ | hdown
    · cases hgot.symm.trans hsending
    · cases hdown.1.symm.trans hsending

/-- A step after the client has closed the connection. -/
theorem ended_step (hstep : SessionStep execute room s s') (hclient : s.client = .closed)
    (hshown : s.shown = replies) (htodo : todo = [] ∨ s.stopped = true)
    (hserver : s.server = .receiving [] ∧ s.toServer = [] ∨ s.server = .closed) :
    Advances execute s s' replies todo := by
  cases hstep with
  | serverEnd _ _ _ _ => exact .inl ⟨rfl, .ended hclient hshown htodo (.inr rfl)⟩
  | serverFailed _ _ => exact .inl ⟨rfl, .ended hclient hshown htodo (.inr rfl)⟩
  | stop _ => exact .inl ⟨rfl, .ended hclient hshown (.inr rfl) (.inr rfl)⟩
  | serverRead n hreceiving hwants hpos hle hflight =>
    rcases hserver with ⟨-, htoServer⟩ | hserver
    · rw [htoServer] at hflight
      exact absurd hpos (Nat.not_lt.mpr hflight)
    · cases hserver.symm.trans hreceiving
  | dispatch hreceiving hcomplete =>
    rcases hserver with ⟨hserver, -⟩ | hserver
    · cases hserver.symm.trans hreceiving
      cases hcomplete
    · cases hserver.symm.trans hreceiving
  | _ => simp_all

/-- **The step lemma.** -/
theorem SessionPhase.step (hphase : SessionPhase s replies todo)
    (hstep : SessionStep execute room s s') (hfits : NextFits execute s.db todo) :
    Advances execute s s' replies todo := by
  cases hphase with
  | idle hclient htoClient hshown htodo hserver =>
    exact idle_step hstep hfits hclient htoClient hshown htodo hserver
  | request query rest hclient htoClient hshown htodo hbuf hserver =>
    exact request_step hstep hfits hclient htoClient hshown htodo hbuf hserver
  | reply r got rest hclient htoServer hreplies htodo hbuf hfit hserver hframe =>
    exact reply_step hstep hclient htoServer hreplies htodo hbuf hfit hserver hframe
  | leaving rest hclient htoClient hshown htodo hserver =>
    exact leaving_step hstep hclient htoClient hshown htodo hserver
  | ended hclient hshown htodo hserver => exact ended_step hstep hclient hshown htodo hserver

/-! ## Runs -/

/-- What a run has done: some queries are executed, the others are still to be executed. -/
def SessionInv (execute : σ → List UInt8 → σ × Answer) (db : σ) (queries : List (List UInt8))
    (s : Session σ) : Prop :=
  ∃ executed todo, queries = executed ++ todo ∧
    s.db = (respondAll execute db (said executed)).1 ∧
    SessionPhase s (respondAll execute db (said executed)).2 todo

/-- The queries and their answers fit the header. -/
def SessionFits (execute : σ → List UInt8 → σ × Answer) (db : σ) (queries : List (List UInt8)) :
    Prop :=
  FitHeader (said queries) ∧ FitHeader (respondAll execute db (said queries)).2

theorem said_append (queries later : List (List UInt8)) :
    said (queries ++ later) = said queries ++ said later := List.map_append

theorem SessionFits.next {db : σ} {executed todo : List (List UInt8)}
    (h : SessionFits execute db (executed ++ todo)) :
    NextFits execute (respondAll execute db (said executed)).1 todo := by
  obtain ⟨hqueries, hreplies⟩ := h
  intro query hquery
  obtain ⟨later, rfl⟩ : ∃ later, todo = query :: later := by
    cases todo with
    | nil => cases hquery
    | cons q later =>
      obtain rfl : q = query := Option.some.inj hquery
      exact ⟨later, rfl⟩
  rw [said_append] at hqueries hreplies
  rw [respondAll_append] at hreplies
  refine ⟨hqueries (.query, query) (List.mem_append_right _ List.mem_cons_self), ?_⟩
  exact hreplies _ (List.mem_append_right _ List.mem_cons_self)

/-- **The run lemma.** -/
theorem SessionRun.inv {db : σ} {lines : List (List UInt8)}
    (hfits : SessionFits execute db (replQueries lines []))
    (hrun : SessionRun execute room db lines s) :
    SessionInv execute db (replQueries lines []) s := by
  induction hrun with
  | start => exact ⟨[], _, rfl, rfl, .idle rfl rfl rfl rfl (.inl ⟨rfl, rfl⟩)⟩
  | step _ hstep ih =>
    obtain ⟨executed, todo, hqueries, hdb, hphase⟩ := ih
    have hnext := hfits
    rw [hqueries] at hnext
    rcases hphase.step hstep (hdb ▸ hnext.next) with ⟨hdb', hphase'⟩ |
      ⟨query, later, rfl, hdb', hphase'⟩
    · exact ⟨executed, todo, hqueries, hdb'.trans hdb, hphase'⟩
    · -- one more query is executed
      refine ⟨executed ++ [query], later, by rw [hqueries, List.append_assoc]; rfl, ?_, ?_⟩
      · rw [hdb', said_append, respondAll_append, hdb]
        rfl
      · rw [said_append, respondAll_append, ← hdb]
        exact hphase'

/-- **At any time** the database has executed a beginning of the queries, each once and in
order, and the client has been shown the answers to all of these, or to all but the last,
whose answer is on its way. This holds for all interleavings and all ways to split the
messages, and whenever the server is told to stop. -/
theorem sessionRun_inOrder (execute : σ → List UInt8 → σ × Answer) (room : Nat) (db : σ)
    (lines : List (List UInt8)) (hfits : SessionFits execute db (replQueries lines []))
    {s : Session σ} (hrun : SessionRun execute room db lines s) :
    ∃ executed, executed <+: replQueries lines [] ∧
      s.db = (respondAll execute db (said executed)).1 ∧
      (s.shown = (respondAll execute db (said executed)).2 ∨
        ∃ r, s.shown ++ [r] = (respondAll execute db (said executed)).2) := by
  obtain ⟨executed, todo, hqueries, hdb, hphase⟩ := hrun.inv hfits
  refine ⟨executed, ⟨todo, hqueries.symm⟩, hdb, ?_⟩
  cases hphase with
  | idle _ _ hshown _ _ => exact .inl hshown
  | request query rest _ _ hshown _ _ _ => exact .inl hshown
  | reply r got rest _ _ hreplies _ _ _ _ _ => exact .inr ⟨r, hreplies.symm⟩
  | leaving rest _ _ hshown _ _ => exact .inl hshown
  | ended _ hshown _ _ => exact .inl hshown

/-- The line `1;` is typed, written at once and read by the server in three calls; the
query is executed and its answer is not yet written. -/
theorem sessionRun_inOrder_executing :
    ∃ executed, executed <+: replQueries [[49, 59]] [] ∧
      1 = (respondAll countQueries 0 (said executed)).1 ∧
      ([] = (respondAll countQueries 0 (said executed)).2 ∨
        ∃ r, [] ++ [r] = (respondAll countQueries 0 (said executed)).2) := by
  have hline := @SessionStep.line Nat countQueries 6 { db := 0, lines := [[49, 59]] } _ _ rfl rfl
  have htyped := SessionRun.step .start hline
  have hsent := SessionRun.step htyped (.clientWrite 6 rfl (by decide) (by decide) (by decide))
  have hheader := SessionRun.step hsent (.serverRead 4 rfl rfl (by decide) (by decide) (by decide))
  have htype := SessionRun.step hheader
    (.serverRead 1 rfl rfl (by decide) (by decide) (by decide))
  have hdata := SessionRun.step htype (.serverRead 1 rfl rfl (by decide) (by decide) (by decide))
  have hexecuted := SessionRun.step hdata (.dispatch rfl rfl)
  exact sessionRun_inOrder countQueries 6 0 [[49, 59]] ⟨by decide, by decide⟩ hexecuted

/-! ## A step is possible -/

/-- Something happens, and not because the server is told to stop. -/
def Session.Moves (execute : σ → List UInt8 → σ × Answer) (room : Nat) (s : Session σ) : Prop :=
  ∃ s', SessionStep execute room s s' ∧ s'.stopped = s.stopped

/-- The server that has part of a message reads on or takes the message. -/
theorem moves_server {type : MessageType} {data got : List UInt8} (hfit : data.length + 1 < 2 ^ 32)
    (hserver : s.server = .receiving got) {rest : List UInt8}
    (hframe : got ++ (s.toServer ++ rest) = frame type data) (hrest : s.toServer ≠ [] ∨ rest = []) :
    s.Moves execute room := by
  by_cases htoServer : s.toServer = []
  · -- all of the message is there
    rw [htoServer, hrest.resolve_left (not_not_intro htoServer), List.append_nil,
      List.append_nil] at hframe
    have hcomplete : received got = .complete type data := by
      rw [hframe, ← List.append_nil (frame type data)]
      exact received_frame hfit []
    refine ⟨_, .dispatch hserver hcomplete, ?_⟩
    rw [Session.dispatch]
    split_ifs <;> rfl
  · obtain ⟨count, hcount, -, hwants⟩ := received_partial hfit hframe
      (List.append_ne_nil_of_left_ne_nil htoServer _)
    exact ⟨_, .serverRead 1 hserver hwants Nat.one_pos hcount (List.length_pos_iff.mpr htoServer),
      rfl⟩

/-- The client that has bytes to write writes one, or the server reads first, or the
server is gone. -/
theorem moves_client (hroom : 0 < room) {type : MessageType} {data rest : List UInt8}
    {leaving : Bool} (hfit : data.length + 1 < 2 ^ 32) (hclient : s.client = .send rest leaving)
    (hrest : rest ≠ [])
    (hserver : (∃ got, s.server = .receiving got ∧
      got ++ (s.toServer ++ rest) = frame type data) ∨ s.Down) : s.Moves execute room := by
  rw [ClientEnd.send, if_neg hrest] at hclient
  by_cases hfull : s.toServer.length < room
  · exact ⟨_, .clientWrite 1 hclient Nat.one_pos (List.length_pos_iff.mpr hrest) hfull, rfl⟩
  · rcases hserver with ⟨got, hgot, hframe⟩ | hdown
    · exact moves_server hfit hgot hframe (.inl (List.length_pos_iff.mp (by omega)))
    · exact ⟨_, .clientLost hclient hdown.1, rfl⟩

/-- An answer that is on its way is read, written or shown. -/
theorem moves_reply (hroom : 0 < room) {r : Message} {got rest : List UInt8}
    (hclient : s.client = .receiving got) (hfit : r.2.length + 1 < 2 ^ 32)
    (hserver : s.server = .send rest ∨ s.Down ∧ rest = [])
    (hframe : got ++ (s.toClient ++ rest) = frame r.1 r.2) : s.Moves execute room := by
  by_cases htoClient : s.toClient = []
  · by_cases hrest : rest = []
    · rw [htoClient, hrest, List.append_nil, List.append_nil] at hframe
      have hcomplete : received got = .complete r.1 r.2 := by
        rw [hframe, ← List.append_nil (frame r.1 r.2)]
        exact received_frame hfit []
      exact ⟨_, .show hclient hcomplete, rfl⟩
    · have hsending := hserver.resolve_right fun h => hrest h.2
      rw [ServerEnd.send, if_neg hrest] at hsending
      refine ⟨_, .serverWrite 1 hsending Nat.one_pos (List.length_pos_iff.mpr hrest) ?_, rfl⟩
      rw [htoClient]
      exact hroom
  · obtain ⟨count, hcount, -, hwants⟩ := received_partial hfit hframe
      (List.append_ne_nil_of_left_ne_nil htoClient _)
    exact ⟨_, .clientRead 1 hclient hwants Nat.one_pos hcount (List.length_pos_iff.mpr htoClient),
      rfl⟩

/-- A session moves until both ends have closed the connection. -/
theorem SessionPhase.moves (hphase : SessionPhase s replies todo) (hroom : 0 < room)
    (hfits : NextFits execute s.db todo) :
    s.client = .closed ∧ s.server = .closed ∨ s.Moves execute room := by
  cases hphase with
  | idle hclient _ _ _ _ =>
    right
    cases hlines : s.lines with
    | nil => exact ⟨_, .eof hclient hlines, rfl⟩
    | cons line lines =>
      refine ⟨_, .line hclient hlines, ?_⟩
      rw [Session.readLine]
      split <;> rfl
  | request query rest hclient htoClient _ htodo _ hserver =>
    right
    have hfit := (hfits query (by rw [htodo]; rfl)).1
    by_cases hrest : rest = []
    · rcases hserver with ⟨got, hgot, hframe⟩ | hdown
      · exact moves_server hfit hgot hframe (.inr hrest)
      · rw [hrest] at hclient
        exact ⟨_, .clientEnd hclient received_nil htoClient hdown.1, rfl⟩
    · exact moves_client hroom hfit hclient hrest hserver
  | reply r got rest hclient _ _ _ _ hfit hserver hframe =>
    exact .inr (moves_reply hroom hclient hfit hserver hframe)
  | leaving rest hclient _ _ _ hserver =>
    by_cases hrest : rest = []
    · rcases hserver with ⟨got, hgot, hframe⟩ | hdown
      · exact .inr (moves_server (by simp) hgot hframe (.inr hrest))
      · rw [hrest] at hclient
        exact .inl ⟨hclient, hdown.1⟩
    · exact .inr (moves_client hroom (by simp) hclient hrest hserver)
  | ended hclient _ _ hserver =>
    rcases hserver with ⟨hserver, htoServer⟩ | hserver
    · exact .inr ⟨_, .serverEnd hserver received_nil htoServer hclient, rfl⟩
    · exact .inl ⟨hclient, hserver⟩

/-- The client that has closed the connection has been shown all answers, unless the
server was told to stop. -/
theorem SessionPhase.closed (hphase : SessionPhase s replies todo) (hclient : s.client = .closed)
    (hstopped : s.stopped = false) : s.shown = replies ∧ todo = [] := by
  cases hphase with
  | idle hprompt _ _ _ _ => cases hclient.symm.trans hprompt
  | request query rest hsend _ _ _ _ _ =>
    cases (ClientEnd.send_eq_closed (hsend.symm.trans hclient)).2
  | reply r got rest hreceiving _ _ _ _ _ _ _ => cases hclient.symm.trans hreceiving
  | leaving rest _ _ hshown htodo _ => exact ⟨hshown, htodo⟩
  | ended _ hshown htodo _ =>
    refine ⟨hshown, htodo.resolve_right fun h => ?_⟩
    rw [hstopped] at h
    cases h

/-- **Every session ends, and with each query answered.** Over streams that hold a byte, a
session moves until both ends have closed the connection; it does not go on for ever; and
when the client has closed it and the server was not told to stop, each query has been
executed once, and the client has been shown the answers in order. -/
theorem sessionRun_answered (execute : σ → List UInt8 → σ × Answer) (room : Nat) (db : σ)
    (lines : List (List UInt8)) (hroom : 0 < room)
    (hfits : SessionFits execute db (replQueries lines [])) :
    (∀ s, SessionRun execute room db lines s → ¬ (s.client = .closed ∧ s.server = .closed) →
      ∃ s', SessionStep execute room s s' ∧ s'.stopped = s.stopped) ∧
    (∀ f : Nat → Session σ, ∃ n, ¬ SessionStep execute room (f n) (f (n + 1))) ∧
    ∀ s, SessionRun execute room db lines s → s.client = .closed → s.stopped = false →
      s.db = (respondAll execute db (said (replQueries lines []))).1 ∧
        s.shown = (respondAll execute db (said (replQueries lines []))).2 := by
  refine ⟨fun s hrun hopen => ?_, SessionStep.terminates execute room,
    fun s hrun hclient hstopped => ?_⟩
  · obtain ⟨executed, todo, hqueries, hdb, hphase⟩ := hrun.inv hfits
    rw [hqueries] at hfits
    exact (hphase.moves hroom (hdb ▸ hfits.next)).resolve_left hopen
  · obtain ⟨executed, todo, hqueries, hdb, hphase⟩ := hrun.inv hfits
    obtain ⟨hshown, rfl⟩ := hphase.closed hclient hstopped
    rw [List.append_nil] at hqueries
    rw [hqueries]
    exact ⟨hdb, hshown⟩

/-- The lines `1;` and `quit`, over streams of one byte. -/
theorem sessionRun_answered_quit :
    (∀ s, SessionRun countQueries 1 0 [[49, 59], [113, 117, 105, 116]] s →
      ¬ (s.client = .closed ∧ s.server = .closed) →
      ∃ s', SessionStep countQueries 1 s s' ∧ s'.stopped = s.stopped) ∧
    (∀ f : Nat → Session Nat, ∃ n, ¬ SessionStep countQueries 1 (f n) (f (n + 1))) ∧
    ∀ s, SessionRun countQueries 1 0 [[49, 59], [113, 117, 105, 116]] s → s.client = .closed →
      s.stopped = false →
      s.db =
          (respondAll countQueries 0 (said (replQueries [[49, 59], [113, 117, 105, 116]] []))).1 ∧
        s.shown =
          (respondAll countQueries 0 (said (replQueries [[49, 59], [113, 117, 105, 116]] []))).2 :=
  sessionRun_answered countQueries 1 0 _ Nat.one_pos ⟨by decide, by decide⟩

end OneBase
