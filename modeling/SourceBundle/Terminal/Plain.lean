import SourceBundle.Terminal.Sequence

/-!
Plain text. Stripping takes escape sequences and control characters out of a text, wherever they came
from. The two ways to strip differ only where a control character shows inside a sequence: it starts a
run of plain characters, and when the run is over, the sequence is either given up or taken up again.
-/

namespace SourceBundle.Terminal

/-- What becomes of a sequence that a run of plain characters has broken. -/
inductive Broken where
  /-- The run has ended the sequence. -/
  | givenUp
  /-- The sequence goes on after the run, unless the run had a character outside ASCII. -/
  | resumed
  deriving DecidableEq, Repr

/-- Where stripping stands between two characters. -/
structure Stripper where
  /-- The sequence that is being read, or that waits for the end of the run. -/
  reader : Reader
  /-- Whether a run of plain characters is under way. -/
  running : Bool
  deriving DecidableEq, Repr

namespace Stripper

/-- Before the first character. -/
def start : Stripper := ⟨.ground, false⟩

/-- Whether a character is kept. Within a run it is read as plain text is. -/
def keeps (s : Stripper) (c : Char) : Bool := (if s.running then Reader.ground else s.reader).shows c

/-- Where stripping stands after a character. -/
def next (broken : Broken) (s : Stripper) (c : Char) : Stripper :=
  if s.keeps c then
    ⟨if broken = .givenUp || 0x80 ≤ c.toNat then .ground else s.reader, true⟩
  else ⟨s.reader.next c, false⟩

end Stripper

/-- One more character of a text that is being stripped; the characters kept so far come newest
first. -/
def stripStep (broken : Broken) (state : Stripper × List Char) (c : Char) : Stripper × List Char :=
  (state.1.next broken c, if state.1.keeps c then c :: state.2 else state.2)

/-- A text without escape sequences and control characters. -/
def strip (broken : Broken) (text : String) : String :=
  String.ofList (text.toList.foldl (stripStep broken) (.start, [])).2.reverse

end SourceBundle.Terminal
