/-!
Line ends. A text may end its lines with LF, with CR LF or with a lone CR; `fold` brings them all to
LF. It works in two passes, pairs first, and leaves a text without CR as it is. `firstLine` knows only
LF and CR LF.
-/

namespace SourceBundle.Newline

/-- Replaces each CR LF by LF; `done` holds the text so far, the newest character first. -/
def joinPairs (done : List Char) : List Char → List Char
  | '\r' :: '\n' :: rest => joinPairs ('\n' :: done) rest
  | c :: rest => joinPairs (c :: done) rest
  | [] => done.reverse

/-- Replaces CR by LF. -/
def crToLf (c : Char) : Char := if c = '\r' then '\n' else c

/-- Brings every line end to LF. -/
def fold (text : List Char) : List Char :=
  if text.contains '\r' then (joinPairs [] text).map crToLf else text

/-- The text up to its first LF, or up to the CR right before it. -/
def firstLine (text : List Char) : List Char :=
  let line := text.takeWhile (· ≠ '\n')
  if line.length < text.length ∧ line.getLast? = some '\r' then line.dropLast else line

end SourceBundle.Newline
