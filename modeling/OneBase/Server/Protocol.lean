import OneBase.Lib.Bytes

/-!
# Message framing (`server/protocol.h`)

A message on the wire is a length of four bytes in network byte order, a type byte
and the data; the length counts the type byte. The two ends of the stream call
`read` and `write`, which may transfer fewer bytes than they are asked for.

- `Inbound`, `Outbound`: the ends of the stream. For every call they say how many
  bytes it transfers at most; 0 is an error.
- `readExact_spec`, `writeExact_spec`: the loops around the calls undo the
  fragmentation.
- `recvMessage_frame`, `frame_of_recvMessage`: exactly the complete frames are
  received.
- `recvMessages_sendMessages`: what is sent is received.
-/

namespace OneBase

open Cpp

/-- Model of `MessageType`. Its underlying type is `uint8_t` and `RecvMessage` casts
a byte to it, so there is a value for each byte. -/
structure MessageType where
  byte : UInt8
  deriving DecidableEq

namespace MessageType

def query : MessageType := ⟨81⟩
def result : MessageType := ⟨82⟩
def error : MessageType := ⟨69⟩
def terminate : MessageType := ⟨88⟩

end MessageType

/-! ## The stream -/

/-- The end that is read from: the bytes still to come, and the most that each of the
calls to come delivers. -/
structure Inbound where
  bytes : List UInt8
  sizes : Nat → Nat

/-- The end that is written to: the bytes written so far, and the most that each of
the calls to come takes. -/
structure Outbound where
  bytes : List UInt8 := []
  sizes : Nat → Nat

/-- Model of `::read`. No bytes are the end of the stream or an error. -/
def Inbound.read (s : Inbound) (count : Nat) : List UInt8 × Inbound :=
  let n := min count (s.sizes 0)
  (s.bytes.take n, ⟨s.bytes.drop n, fun i => s.sizes (i + 1)⟩)

/-- Model of `::write`: how many bytes were taken. -/
def Outbound.write (s : Outbound) (buf : List UInt8) : Nat × Outbound :=
  let n := min buf.length (s.sizes 0)
  (n, ⟨s.bytes ++ buf.take n, fun i => s.sizes (i + 1)⟩)

/-- Model of `ReadExact`. The buffer is what is left to fill of it. -/
def readExact (s : Inbound) (buf : List UInt8) : Bool × List UInt8 × Inbound :=
  if _hdone : buf = [] then (true, buf, s)
  else
    let (chunk, s') := s.read buf.length
    if _hchunk : chunk = [] then (false, buf, s')
    else
      let (ok, rest, s'') := readExact s' (buf.drop chunk.length)
      (ok, chunk ++ rest, s'')
termination_by buf.length
decreasing_by
  have hbuf := List.length_pos_iff.mpr _hdone
  have hpos := List.length_pos_iff.mpr _hchunk
  rw [List.length_drop]
  omega

/-- Model of `WriteExact`. The buffer is what is left to write of it. -/
def writeExact (s : Outbound) (buf : List UInt8) : Bool × Outbound :=
  if _hdone : buf = [] then (true, s)
  else
    let (n, s') := s.write buf
    if _hn : n = 0 then (false, s')
    else writeExact s' (buf.drop n)
termination_by buf.length
decreasing_by
  have hbuf := List.length_pos_iff.mpr _hdone
  rw [List.length_drop]
  omega

/-! ## Messages -/

/-- Model of `htonl` and of `ntohl` on a little-endian machine. -/
def htonl (n : Nat) : Nat := natOf (bytesOf n 4).reverse

/-- Model of `SendMessage`. -/
def sendMessage (s : Outbound) (type : MessageType) (data : List UInt8) : Bool × Outbound :=
  let payloadLen := (data.length + 1) % 2 ^ 32
  let netLen := htonl payloadLen
  match writeExact s (bytesOf netLen 4) with
  | (false, s) => (false, s)
  | (true, s) =>
    match writeExact s [type.byte] with
    | (false, s) => (false, s)
    | (true, s) => if data = [] then (true, s) else writeExact s data

/-- Model of `std::string::resize`. -/
def resize (data : List UInt8) (n : Nat) : List UInt8 :=
  data.take n ++ List.replicate (n - data.length) 0

/-- Model of `RecvMessage`, with what the two pointers point at. -/
def recvMessage (s : Inbound) (type : MessageType) (data : List UInt8) :
    Bool × MessageType × List UInt8 × Inbound :=
  match readExact s (List.replicate 4 0) with
  | (false, _, s) => (false, type, data, s)
  | (true, netLen, s) =>
    let payloadLen := htonl (natOf netLen)
    if payloadLen = 0 then (false, type, data, s)
    else
      match readExact s [0] with
      | (false, _, s) => (false, type, data, s)
      | (true, typeByte, s) =>
        let type := ⟨typeByte.headD 0⟩
        let dataLen := payloadLen - 1
        let data := resize data dataLen
        if 0 < dataLen then
          let (ok, data, s) := readExact s data
          (ok, type, data, s)
        else (true, type, data, s)

/-- Several messages, one after the other. -/
def sendMessages (s : Outbound) : List (MessageType × List UInt8) → Bool × Outbound
  | [] => (true, s)
  | (type, data) :: messages =>
    match sendMessage s type data with
    | (false, s) => (false, s)
    | (true, s) => sendMessages s messages

/-- The loop of `HandleClient`: receive messages until `RecvMessage` returns false. -/
def recvMessages : Nat → Inbound → List (MessageType × List UInt8) × Inbound
  | 0, s => ([], s)
  | fuel + 1, s =>
    match recvMessage s ⟨0⟩ [] with
    | (false, _, _, s) => ([], s)
    | (true, type, data, s) =>
      let (messages, s) := recvMessages fuel s
      ((type, data) :: messages, s)

/-- The bytes of a message on the wire. -/
def frame (type : MessageType) (data : List UInt8) : List UInt8 :=
  (bytesOf (data.length + 1) 4).reverse ++ type.byte :: data

/-! ## The loops around the calls -/

/-- Each call to come delivers something. -/
def Inbound.Positive (s : Inbound) : Prop := ∀ i, 0 < s.sizes i

/-- Each call to come takes something. -/
def Outbound.Positive (s : Outbound) : Prop := ∀ i, 0 < s.sizes i

/-- One round of `ReadExact`, with the bytes that the call transfers. -/
theorem readExact_eq {s : Inbound} {buf : List UInt8} (hbuf : buf ≠ []) :
    ∃ n ≤ buf.length, (s.Positive → 0 < n) ∧
      readExact s buf =
        if s.bytes.take n = [] then (false, buf, ⟨s.bytes.drop n, fun i => s.sizes (i + 1)⟩)
        else
          let r := readExact ⟨s.bytes.drop n, fun i => s.sizes (i + 1)⟩
            (buf.drop (s.bytes.take n).length)
          (r.1, s.bytes.take n ++ r.2.1, r.2.2) := by
  have hlen := List.length_pos_iff.mpr hbuf
  refine ⟨min buf.length (s.sizes 0), Nat.min_le_left _ _, fun hpos => ?_, ?_⟩
  · have := hpos 0
    omega
  · rw [readExact, dif_neg hbuf]
    rfl

/-- **`ReadExact`** takes as many bytes as the buffer has, or fails if there are not
so many. The induction is on the length of the buffer, which each round shortens. -/
theorem readExact_spec {n : Nat} : ∀ {s : Inbound} {buf : List UInt8}, buf.length ≤ n →
    s.Positive →
    (buf.length ≤ s.bytes.length → ∃ s', s'.Positive ∧ s'.bytes = s.bytes.drop buf.length ∧
      readExact s buf = (true, s.bytes.take buf.length, s')) ∧
    (s.bytes.length < buf.length → (readExact s buf).1 = false) := by
  induction n with
  | zero =>
    intro s buf hn hpos
    obtain rfl : buf = [] := List.length_eq_zero_iff.mp (Nat.le_zero.mp hn)
    refine ⟨fun _ => ⟨s, hpos, rfl, ?_⟩, fun h => absurd h (Nat.not_lt_zero _)⟩
    rw [readExact, dif_pos rfl]
    rfl
  | succ n ih =>
    intro s buf hn hpos
    by_cases hbuf : buf = []
    · subst hbuf
      exact ih (Nat.zero_le n) hpos
    · obtain ⟨k, hk, hkpos, heq⟩ := readExact_eq (s := s) hbuf
      have hlen := List.length_pos_iff.mpr hbuf
      have hkpos := hkpos hpos
      rw [heq]
      by_cases hnil : s.bytes = []
      · simp [hnil]
        omega
      · have htake : s.bytes.take k ≠ [] := by
          simp [hnil]
          omega
        have hbytes := List.length_pos_iff.mpr hnil
        rw [if_neg htake]
        -- the buffer that is left, and the bytes that are left
        obtain ⟨hok, hfail⟩ := @ih ⟨s.bytes.drop k, fun i => s.sizes (i + 1)⟩
          (buf.drop (s.bytes.take k).length)
          (by rw [List.length_drop, List.length_take]; omega) fun i => hpos (i + 1)
        simp only [List.length_drop, List.length_take] at hok hfail
        constructor
        · intro hle
          have hmin : min k s.bytes.length = k := by omega
          obtain ⟨s', hpos', hrest, heq'⟩ := hok (by omega)
          rw [hmin] at heq' hrest
          refine ⟨s', hpos', ?_, ?_⟩
          · rw [hrest, List.drop_drop]
            congr 1
            omega
          · simp only [List.length_take, hmin, heq']
            rw [← List.take_add]
            congr 3
            omega
        · intro hlt
          simp only [List.length_take]
          exact hfail (by omega)

/-- **`WriteExact`** puts the buffer on the stream. -/
theorem writeExact_spec {n : Nat} : ∀ {s : Outbound} {buf : List UInt8}, buf.length ≤ n →
    s.Positive → ∃ s', s'.Positive ∧ s'.bytes = s.bytes ++ buf ∧
      writeExact s buf = (true, s') := by
  induction n with
  | zero =>
    intro s buf hn hpos
    obtain rfl : buf = [] := List.length_eq_zero_iff.mp (Nat.le_zero.mp hn)
    refine ⟨s, hpos, (List.append_nil _).symm, ?_⟩
    rw [writeExact, dif_pos rfl]
  | succ n ih =>
    intro s buf hn hpos
    by_cases hbuf : buf = []
    · subst hbuf
      exact ih (Nat.zero_le n) hpos
    · have hlen := List.length_pos_iff.mpr hbuf
      have hsize := hpos 0
      have hne : min buf.length (s.sizes 0) ≠ 0 := by omega
      obtain ⟨s', hpos', hbytes, heq⟩ := @ih ⟨s.bytes ++ buf.take (min buf.length (s.sizes 0)),
          fun i => s.sizes (i + 1)⟩ (buf.drop (min buf.length (s.sizes 0)))
        (by rw [List.length_drop]; omega) fun i => hpos (i + 1)
      refine ⟨s', hpos', ?_, ?_⟩
      · rw [hbytes, List.append_assoc, List.take_append_drop]
      · rw [writeExact, dif_neg hbuf]
        dsimp only [Outbound.write]
        rw [dif_neg hne, heq]

/-! ## Frames -/

theorem bytesOf_htonl (n : Nat) : bytesOf (htonl n) 4 = (bytesOf n 4).reverse := by
  have hrev := bytesOf_natOf (bytesOf n 4).reverse
  rw [List.length_reverse, length_bytesOf] at hrev
  exact hrev

/-- The length that the receiver gets from the four bytes. -/
theorem htonl_natOf {net : List UInt8} (hnet : net.length = 4) :
    htonl (natOf net) = natOf net.reverse := by
  have h := bytesOf_natOf net
  rw [hnet] at h
  rw [htonl, h]

/-- `SendMessage` puts a frame on the stream. -/
theorem sendMessage_frame {s : Outbound} (hpos : s.Positive) (type : MessageType)
    {data : List UInt8} (hlen : data.length ≤ 2 ^ 32 - 2) :
    ∃ s', s'.Positive ∧ s'.bytes = s.bytes ++ frame type data ∧
      sendMessage s type data = (true, s') := by
  have hmod : (data.length + 1) % 2 ^ 32 = data.length + 1 := by omega
  obtain ⟨s₁, hpos₁, hbytes₁, heq₁⟩ :=
    writeExact_spec (Nat.le_refl (bytesOf (htonl (data.length + 1)) 4).length) hpos
  obtain ⟨s₂, hpos₂, hbytes₂, heq₂⟩ := writeExact_spec (Nat.le_refl [type.byte].length) hpos₁
  obtain ⟨s₃, hpos₃, hbytes₃, heq₃⟩ := writeExact_spec (Nat.le_refl data.length) hpos₂
  rw [hbytes₁, bytesOf_htonl] at hbytes₂
  by_cases hdata : data = []
  · refine ⟨s₂, hpos₂, ?_, ?_⟩
    · rw [hbytes₂, frame, hdata, List.append_assoc]
    · simp only [sendMessage, hmod, heq₁, heq₂, if_pos hdata]
  · refine ⟨s₃, hpos₃, ?_, ?_⟩
    · rw [hbytes₃, hbytes₂, frame]
      simp
    · simp only [sendMessage, hmod, heq₁, heq₂, if_neg hdata, heq₃]

theorem length_resize (data : List UInt8) (n : Nat) : (resize data n).length = n := by
  rw [resize, List.length_append, List.length_take, List.length_replicate]
  omega

/-- `RecvMessage` on a stream that has the length and the type byte of a frame. -/
theorem recvMessage_header {s : Inbound} (hpos : s.Positive) (type : MessageType)
    (data : List UInt8) (type' : MessageType) {net rest : List UInt8} (hnet : net.length = 4)
    (hne : natOf net.reverse ≠ 0) (hbytes : s.bytes = net ++ type'.byte :: rest) :
    ∃ s', s'.Positive ∧ s'.bytes = rest ∧
      recvMessage s type data =
        if 0 < natOf net.reverse - 1 then
          let r := readExact s' (resize data (natOf net.reverse - 1))
          (r.1, type', r.2.1, r.2.2)
        else (true, type', resize data (natOf net.reverse - 1), s') := by
  obtain ⟨s₁, hpos₁, hbytes₁, heq₁⟩ :=
    (readExact_spec (Nat.le_refl (List.replicate 4 (0 : UInt8)).length) hpos).1
      (by rw [hbytes, List.length_append, List.length_replicate]; omega)
  have hlen4 : (List.replicate 4 (0 : UInt8)).length = net.length := by
    rw [List.length_replicate, hnet]
  rw [hlen4, hbytes, List.drop_left] at hbytes₁
  rw [hlen4, hbytes, List.take_left] at heq₁
  obtain ⟨s₂, hpos₂, hbytes₂, heq₂⟩ := (readExact_spec (Nat.le_refl [(0 : UInt8)].length) hpos₁).1
    (by rw [hbytes₁]; simp)
  rw [hbytes₁] at hbytes₂ heq₂
  refine ⟨s₂, hpos₂, hbytes₂, ?_⟩
  simp only [recvMessage, heq₁, htonl_natOf hnet, if_neg hne, heq₂]
  rfl

/-- **A complete frame is received**, and exactly it is taken from the stream. -/
theorem recvMessage_frame {s : Inbound} (hpos : s.Positive) (type : MessageType)
    (data : List UInt8) {type' : MessageType} {data' rest : List UInt8}
    (hlen : data'.length + 1 < 2 ^ 32) (hbytes : s.bytes = frame type' data' ++ rest) :
    ∃ s', s'.Positive ∧ s'.bytes = rest ∧
      recvMessage s type data = (true, type', data', s') := by
  have hnat : natOf (bytesOf (data'.length + 1) 4).reverse.reverse = data'.length + 1 := by
    rw [List.reverse_reverse, natOf_bytesOf]
    exact Nat.mod_eq_of_lt hlen
  rw [frame, List.append_assoc, List.cons_append] at hbytes
  obtain ⟨s₁, hpos₁, hbytes₁, heq₁⟩ := recvMessage_header hpos type data type'
    (by rw [List.length_reverse, length_bytesOf]) (by rw [hnat]; exact Nat.succ_ne_zero _) hbytes
  rw [hnat, Nat.add_sub_cancel] at heq₁
  by_cases hnil : 0 < data'.length
  · obtain ⟨s₂, hpos₂, hbytes₂, heq₂⟩ :=
      (readExact_spec (Nat.le_refl (resize data data'.length).length) hpos₁).1
        (by rw [length_resize, hbytes₁, List.length_append]; omega)
    rw [length_resize, hbytes₁] at hbytes₂ heq₂
    rw [List.drop_left] at hbytes₂
    rw [List.take_left] at heq₂
    refine ⟨s₂, hpos₂, hbytes₂, ?_⟩
    rw [heq₁, if_pos hnil, heq₂]
  · obtain rfl : data' = [] := List.length_eq_zero_iff.mp (Nat.eq_zero_of_not_pos hnil)
    refine ⟨s₁, hpos₁, hbytes₁, ?_⟩
    rw [heq₁, if_neg hnil]
    simp [resize]

/-- A length, a type byte and as many bytes as the length announces are a frame. -/
theorem eq_frame {net rest : List UInt8} (hnet : net.length = 4) (hne : natOf net.reverse ≠ 0)
    (b : UInt8) (hdata : natOf net.reverse - 1 ≤ rest.length) :
    (rest.take (natOf net.reverse - 1)).length + 1 < 2 ^ 32 ∧
      net ++ b :: rest = frame ⟨b⟩ (rest.take (natOf net.reverse - 1)) ++
        rest.drop (natOf net.reverse - 1) := by
  have hlt := natOf_lt net.reverse
  have hbytes := bytesOf_natOf net.reverse
  rw [List.length_reverse, hnet] at hlt hbytes
  have hcount : (rest.take (natOf net.reverse - 1)).length + 1 = natOf net.reverse := by
    rw [List.length_take]
    omega
  constructor
  · rw [hcount]
    exact hlt
  · rw [frame, hcount, hbytes, List.reverse_reverse, List.append_assoc, List.cons_append,
      List.take_append_drop]

/-- **Only complete frames are received.** -/
theorem frame_of_recvMessage {s : Inbound} (hpos : s.Positive) {type : MessageType}
    {data : List UInt8} (h : (recvMessage s type data).1 = true) :
    ∃ type' data' rest, data'.length + 1 < 2 ^ 32 ∧ s.bytes = frame type' data' ++ rest := by
  have hread := readExact_spec (Nat.le_refl (List.replicate 4 (0 : UInt8)).length) hpos
  rw [List.length_replicate] at hread
  by_cases hfour : 4 ≤ s.bytes.length
  · obtain ⟨s₁, hpos₁, hbytes₁, heq₁⟩ := hread.1 hfour
    have hnet : (s.bytes.take 4).length = 4 := by
      rw [List.length_take]
      omega
    by_cases hzero : natOf (s.bytes.take 4).reverse = 0
    · simp only [recvMessage, heq₁, htonl_natOf hnet, hzero, if_true] at h
      cases h
    · cases hdrop : s.bytes.drop 4 with
      | nil =>
        have hfail := (readExact_spec (Nat.le_refl [(0 : UInt8)].length) hpos₁).2
          (by rw [hbytes₁, hdrop]; simp)
        simp only [recvMessage, heq₁, htonl_natOf hnet, if_neg hzero] at h
        generalize readExact s₁ [0] = r at h hfail
        obtain ⟨ok, typeByte, s₂⟩ := r
        cases hfail
        cases h
      | cons b rest =>
        have hbytes : s.bytes = s.bytes.take 4 ++ b :: rest := by
          rw [← hdrop, List.take_append_drop]
        obtain ⟨s₂, hpos₂, hbytes₂, heq₂⟩ := recvMessage_header hpos type data ⟨b⟩ hnet hzero hbytes
        -- as many bytes follow as the length announces
        have hdata : natOf (s.bytes.take 4).reverse - 1 ≤ rest.length := by
          by_contra hlt
          have hfail := (readExact_spec (Nat.le_refl
            (resize data (natOf (s.bytes.take 4).reverse - 1)).length) hpos₂).2
            (by rw [length_resize, hbytes₂]; omega)
          rw [heq₂, if_pos (by omega)] at h
          rw [hfail] at h
          cases h
        obtain ⟨hlt, hframe⟩ := eq_frame hnet hzero b hdata
        exact ⟨⟨b⟩, _, _, hlt, hbytes.trans hframe⟩
  · have hfail := hread.2 (by omega)
    rw [recvMessage] at h
    generalize readExact s (List.replicate 4 0) = r at h hfail
    obtain ⟨ok, netLen, s₁⟩ := r
    cases hfail
    cases h

/-! ## Sequences of messages -/

/-- The frames of the messages, one after the other. -/
def frames (messages : List (MessageType × List UInt8)) : List UInt8 :=
  messages.flatMap fun m => frame m.1 m.2

theorem frames_cons (m : MessageType × List UInt8) (messages : List (MessageType × List UInt8)) :
    frames (m :: messages) = frame m.1 m.2 ++ frames messages := List.flatMap_cons

theorem sendMessages_frames {messages : List (MessageType × List UInt8)}
    (hlen : ∀ m ∈ messages, m.2.length ≤ 2 ^ 32 - 2) :
    ∀ {s : Outbound}, s.Positive → ∃ s', s'.bytes = s.bytes ++ frames messages ∧
      sendMessages s messages = (true, s') := by
  induction messages with
  | nil => exact fun {s} _ => ⟨s, (List.append_nil _).symm, rfl⟩
  | cons m messages ih =>
    intro s hpos
    obtain ⟨s₁, hpos₁, hbytes₁, heq₁⟩ :=
      sendMessage_frame hpos m.1 (hlen m List.mem_cons_self)
    obtain ⟨s₂, hbytes₂, heq₂⟩ := ih (fun m' hm' => hlen m' (List.mem_cons_of_mem _ hm')) hpos₁
    refine ⟨s₂, ?_, ?_⟩
    · rw [hbytes₂, hbytes₁, frames_cons, List.append_assoc]
    · rw [sendMessages, heq₁]
      exact heq₂

/-- Each call takes one frame, and the call after the last one finds the end. -/
theorem recvMessages_frames {messages : List (MessageType × List UInt8)}
    (hlen : ∀ m ∈ messages, m.2.length ≤ 2 ^ 32 - 2) :
    ∀ {fuel : Nat} {s : Inbound}, s.Positive → s.bytes = frames messages →
      messages.length < fuel → (recvMessages fuel s).1 = messages := by
  induction messages with
  | nil =>
    intro fuel s hpos hbytes hfuel
    obtain ⟨fuel, rfl⟩ := Nat.exists_eq_succ_of_ne_zero (Nat.ne_of_gt hfuel)
    have hfalse : (recvMessage s ⟨0⟩ []).1 = false := by
      rw [Bool.eq_false_iff]
      intro htrue
      obtain ⟨type', data', rest, -, hframe⟩ := frame_of_recvMessage hpos htrue
      have hcount := congrArg List.length (hbytes.symm.trans hframe)
      simp [frames, frame] at hcount
    rw [recvMessages]
    generalize recvMessage s ⟨0⟩ [] = r at hfalse
    obtain ⟨ok, type, data, s'⟩ := r
    cases hfalse
    rfl
  | cons m messages ih =>
    intro fuel s hpos hbytes hfuel
    obtain ⟨fuel, rfl⟩ := Nat.exists_eq_succ_of_ne_zero (Nat.ne_of_gt (Nat.zero_lt_of_lt hfuel))
    have hm := hlen m List.mem_cons_self
    obtain ⟨s₁, hpos₁, hbytes₁, heq₁⟩ := recvMessage_frame hpos ⟨0⟩ [] (by omega) hbytes
    have hrest := ih (fun m' hm' => hlen m' (List.mem_cons_of_mem _ hm')) hpos₁ hbytes₁
      (Nat.lt_of_succ_lt_succ hfuel)
    rw [recvMessages, heq₁]
    exact congrArg (m :: ·) hrest

/-- **Framing.** However the stream splits the calls, the messages that were sent are
received, in order; and on any stream exactly a complete frame of non-zero length is
received and taken from the stream. -/
theorem recvMessages_sendMessages :
    (∀ (messages : List (MessageType × List UInt8)) (writes reads : Nat → Nat) (fuel : Nat),
      (∀ i, 0 < writes i) → (∀ i, 0 < reads i) →
      (∀ m ∈ messages, m.2.length ≤ 2 ^ 32 - 2) → messages.length < fuel →
      ∃ sent, sendMessages ⟨[], writes⟩ messages = (true, sent) ∧
        (recvMessages fuel ⟨sent.bytes, reads⟩).1 = messages) ∧
    ∀ (s : Inbound) (type : MessageType) (data : List UInt8), s.Positive →
      ((recvMessage s type data).1 = true ↔ ∃ type' data' rest,
        data'.length + 1 < 2 ^ 32 ∧ s.bytes = frame type' data' ++ rest) ∧
      ∀ type' data' rest, data'.length + 1 < 2 ^ 32 → s.bytes = frame type' data' ++ rest →
        ∃ s', s'.bytes = rest ∧ recvMessage s type data = (true, type', data', s') := by
  constructor
  · intro messages writes reads fuel hwrites hreads hlen hfuel
    obtain ⟨sent, hbytes, hsend⟩ := @sendMessages_frames _ hlen ⟨[], writes⟩ hwrites
    exact ⟨sent, hsend, recvMessages_frames hlen hreads hbytes hfuel⟩
  · intro s type data hpos
    refine ⟨⟨frame_of_recvMessage hpos, ?_⟩, ?_⟩
    · rintro ⟨type', data', rest, hlen, hbytes⟩
      obtain ⟨s', -, -, heq⟩ := recvMessage_frame hpos type data hlen hbytes
      rw [heq]
    · intro type' data' rest hlen hbytes
      obtain ⟨s', -, hrest, heq⟩ := recvMessage_frame hpos type data hlen hbytes
      exact ⟨s', hrest, heq⟩

/-- Two messages, with one byte for each call. -/
theorem recvMessages_sendMessages_bytewise :
    ∃ sent, sendMessages ⟨[], fun _ => 1⟩ [(.query, [49]), (.terminate, [])] = (true, sent) ∧
      (recvMessages 3 ⟨sent.bytes, fun _ => 1⟩).1 = [(.query, [49]), (.terminate, [])] :=
  recvMessages_sendMessages.1 _ _ _ 3 (fun _ => Nat.one_pos) (fun _ => Nat.one_pos)
    (by simp) (by simp)

end OneBase
