import Mathlib.Data.List.Basic

/-!
# A binary `std::fstream` over one file

The stream object keeps three error bits across calls, and most operations do
nothing once `failbit` is up (C++17 [iostream.unformatted]):

- `seekg` clears `eofbit` only, and moves the position unless `fail()`;
- `read` needs `good()`; when the file ends inside the requested range it
  raises `eofbit` *and* `failbit` and reports the short count through `gcount`;
- `seekp` and `write` need `!fail()` and `good()` respectively;
- `bad()` looks at `badbit` alone.

A `basic_filebuf` has one position for reading and writing, and a write past
the end of the file fills the gap with zero bytes. Physical I/O failures, which
would raise `badbit`, are outside the model.
-/

namespace Cpp

/-- A binary file stream opened for reading and writing. -/
structure Fstream where
  file : List UInt8 := []
  pos : Nat := 0
  eofbit : Bool := false
  failbit : Bool := false
  badbit : Bool := false
  gcount : Nat := 0
  deriving DecidableEq, Repr

namespace Fstream

/-- The predicate `ios::fail()`. -/
def fail (s : Fstream) : Bool := s.failbit || s.badbit

/-- The predicate `ios::bad()`: it sees `badbit` only. -/
def bad (s : Fstream) : Bool := s.badbit

/-- The predicate `ios::good()`. -/
def good (s : Fstream) : Bool := !s.eofbit && !s.failbit && !s.badbit

/-- Model of `istream::seekg(off)`: `eofbit` is cleared before the sentry is built, and a
negative offset is a failed seek. -/
def seekg (s : Fstream) (off : Int) : Fstream :=
  let s := { s with eofbit := false }
  if s.fail then s
  else if off < 0 then { s with failbit := true }
  else { s with pos := off.toNat }

/-- Model of `istream::read(buf, n)`; the bytes stored into `buf` are returned. -/
def read (s : Fstream) (n : Nat) : List UInt8 × Fstream :=
  if s.good then
    let bytes := (s.file.drop s.pos).take n
    let s := { s with gcount := bytes.length, pos := s.pos + bytes.length }
    if bytes.length < n then (bytes, { s with eofbit := true, failbit := true })
    else (bytes, s)
  else ([], { s with gcount := 0, failbit := true })

/-- Model of `ostream::seekp(off)`. -/
def seekp (s : Fstream) (off : Int) : Fstream :=
  if s.fail then s
  else if off < 0 then { s with failbit := true }
  else { s with pos := off.toNat }

/-- Overwrite the file from `pos` on; a gap after the old end is zero-filled. -/
def writeAt (file : List UInt8) (pos : Nat) (bytes : List UInt8) : List UInt8 :=
  file.take pos ++ List.replicate (pos - file.length) 0 ++ bytes ++
    file.drop (pos + bytes.length)

/-- Model of `ostream::write(buf, n)`. -/
def write (s : Fstream) (bytes : List UInt8) : Fstream :=
  if s.good then
    { s with file := writeAt s.file s.pos bytes, pos := s.pos + bytes.length }
  else s

/-! ## Contents after a write -/

/-- Byte `a` of the file, zero past the end. -/
def byteAt (file : List UInt8) (a : Nat) : UInt8 := file.getD a 0

theorem length_writeAt (file : List UInt8) (pos : Nat) (bytes : List UInt8) :
    (writeAt file pos bytes).length = max file.length (pos + bytes.length) := by
  simp only [writeAt, List.length_append, List.length_take, List.length_replicate,
    List.length_drop]
  omega

theorem byteAt_writeAt (file : List UInt8) (pos : Nat) (bytes : List UInt8) (a : Nat) :
    byteAt (writeAt file pos bytes) a =
      if pos ≤ a ∧ a < pos + bytes.length then byteAt bytes (a - pos) else byteAt file a := by
  unfold byteAt writeAt
  simp only [List.getD_eq_getElem?_getD]
  -- the written file is four blocks: old prefix, zero gap, new bytes, old suffix
  have hpre : (file.take pos ++ List.replicate (pos - file.length) (0 : UInt8)).length = pos := by
    simp only [List.length_append, List.length_take, List.length_replicate]
    omega
  by_cases hlt : a < pos
  · rw [if_neg (by omega), List.append_assoc, List.getElem?_append_left (by rw [hpre]; exact hlt)]
    by_cases hfile : a < file.length
    · rw [List.getElem?_append_left (by simp only [List.length_take]; omega),
        List.getElem?_take_of_lt hlt]
    · rw [List.getElem?_append_right (by simp only [List.length_take]; omega),
        List.getElem?_eq_none (by omega : file.length ≤ a), List.getElem?_replicate]
      split <;> rfl
  · rw [List.append_assoc, List.getElem?_append_right (by rw [hpre]; omega), hpre]
    by_cases hin : a < pos + bytes.length
    · rw [if_pos ⟨by omega, hin⟩, List.getElem?_append_left (by omega)]
    · rw [if_neg (by omega), List.getElem?_append_right (by omega), List.getElem?_drop]
      congr 2
      omega

end Fstream

end Cpp
