import SourceBundle.Bytes

/-!
Reading bytes as UTF-8. A byte string falls into pieces: well-formed characters, and runs of bytes that
form none. A broken run ends as soon as no further byte could make a character of it, so `E2 82` before
a letter is one run and `FF FF` are two. The scanner takes one byte at a time and knows only the
character that has begun.

Three readings come from the pieces: `dropBroken` leaves broken runs out (contents of files),
`replaceBroken` puts U+FFFD for each (names that are shown), and `text?` refuses them.
-/

namespace SourceBundle.Utf8

/-- A stretch of a byte string: one character, or bytes that form none. -/
inductive Piece where
  | char (c : Char)
  | broken (bytes : Bytes)
  deriving DecidableEq, Repr

/-- A character that has begun and still waits for bytes. -/
structure Begun where
  /-- How many bytes must follow the next one. -/
  owed : Nat
  /-- The least byte that may come next. -/
  low : UInt8
  /-- The greatest byte that may come next. -/
  high : UInt8
  /-- The code point's bits so far. -/
  value : Nat
  /-- The bytes so far, the newest first. -/
  seen : Bytes
  deriving DecidableEq, Repr

/-- Where the scanner stands between two bytes. -/
structure Scan where
  /-- The pieces so far, the newest first. -/
  pieces : List Piece
  /-- The character that has begun, if any. -/
  pending : Option Begun
  deriving DecidableEq, Repr

/-- Takes a byte that no begun character can use. -/
def Scan.start (pieces : List Piece) (b : UInt8) : Scan :=
  if b < 0x80 then ⟨.char (Char.ofNat b.toNat) :: pieces, none⟩
  else if b < 0xC2 then ⟨.broken [b] :: pieces, none⟩
  else if b < 0xE0 then ⟨pieces, some ⟨0, 0x80, 0xBF, b.toNat - 0xC0, [b]⟩⟩
  else if b < 0xF0 then
    ⟨pieces, some ⟨1, if b = 0xE0 then 0xA0 else 0x80, if b = 0xED then 0x9F else 0xBF,
      b.toNat - 0xE0, [b]⟩⟩
  else if b < 0xF5 then
    ⟨pieces, some ⟨2, if b = 0xF0 then 0x90 else 0x80, if b = 0xF4 then 0x8F else 0xBF,
      b.toNat - 0xF0, [b]⟩⟩
  else ⟨.broken [b] :: pieces, none⟩

/-- Takes one byte. -/
def Scan.feed (s : Scan) (b : UInt8) : Scan :=
  match s.pending with
  | none => Scan.start s.pieces b
  | some p =>
    if p.low ≤ b ∧ b ≤ p.high then
      let value := p.value * 64 + (b.toNat - 0x80)
      match p.owed with
      | 0 => ⟨.char (Char.ofNat value) :: s.pieces, none⟩
      | owed + 1 => ⟨s.pieces, some ⟨owed, 0x80, 0xBF, value, b :: p.seen⟩⟩
    else Scan.start (.broken p.seen.reverse :: s.pieces) b

/-- The pieces once the bytes have ended: a character that has only begun is a broken run. -/
def Scan.finish (s : Scan) : List Piece :=
  match s.pending with
  | none => s.pieces.reverse
  | some p => (.broken p.seen.reverse :: s.pieces).reverse

/-- The pieces of a byte string, in order. -/
def pieces (bytes : Bytes) : List Piece := (bytes.foldl Scan.feed ⟨[], none⟩).finish

/-- The well-formed characters alone. -/
def dropBroken (bytes : Bytes) : List Char :=
  (pieces bytes).filterMap fun
    | .char c => some c
    | .broken _ => none

/-- The text with U+FFFD in place of each broken run. -/
def replaceBroken (bytes : Bytes) : String :=
  String.ofList ((pieces bytes).map fun
    | .char c => c
    | .broken _ => '\uFFFD')

/-- Whether nothing in the bytes is broken. -/
def isWellFormed (bytes : Bytes) : Bool :=
  (pieces bytes).all fun
    | .char _ => true
    | .broken _ => false

/-- The text that the bytes encode, if they encode one. -/
def text? (bytes : Bytes) : Option String :=
  if isWellFormed bytes then some (String.ofList (dropBroken bytes)) else none

end SourceBundle.Utf8
