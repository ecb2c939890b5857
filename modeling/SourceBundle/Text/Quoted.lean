import SourceBundle.Path.Basic
import SourceBundle.Text.Unprintable

/-!
Quoted paths. Between double quotes each character stands for itself, but for the ones that would not
show or would end the quotation: these are written with a backslash, in a short form where there is
one, else by their code point. Bytes that are not UTF-8 are written by their value.
-/

namespace SourceBundle.Text

/-- The digits of a number in base sixteen. -/
def hex (n : Nat) : String := String.ofList (Nat.toDigits 16 n)

/-- The two capital digits of a byte in base sixteen. -/
def hexByte (b : UInt8) : String :=
  let digits := (hex b.toNat).toUpper
  if digits.length = 1 then "0" ++ digits else digits

/-- The letter of a character's short form after the backslash. -/
def shortForm? (c : Char) : Option String :=
  match c.toNat with
  | 0 => some "0"
  | 9 => some "t"
  | 10 => some "n"
  | 13 => some "r"
  | 34 => some "\""
  | 92 => some "\\"
  | _ => none

/-- A character as it stands in a quotation. -/
def quotedChar (c : Char) : String :=
  match shortForm? c with
  | some letter => "\\" ++ letter
  | none => if isUnprintable c then "\\u\x7b" ++ hex c.toNat ++ "\x7d" else c.toString

/-- A piece of a byte string as it stands in a quotation. -/
def quotedPiece : Utf8.Piece → String
  | .char c => quotedChar c
  | .broken bytes => String.join (bytes.map fun b => "\\x" ++ hexByte b)

/-- A path between double quotes. -/
def quoted (p : Path) : String :=
  "\"" ++ String.join ((Utf8.pieces p.bytes).map quotedPiece) ++ "\""

end SourceBundle.Text
