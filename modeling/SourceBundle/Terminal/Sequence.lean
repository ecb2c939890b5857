/-!
Escape sequences, as a terminal reads them. The reader takes one character at a time and knows only
what kind of sequence it stands in. Most sequences end with a letter; strings go on until a bell, until
the next sequence begins, or until a character with the byte 9C in it, as their kind lays down.
-/

namespace SourceBundle.Terminal

/-- Where the reader of a text stands with regard to escape sequences. -/
inductive Reader where
  /-- In plain text. -/
  | ground
  /-- After the escape character. -/
  | escape
  /-- After the escape character and at least one intermediate character. -/
  | escapeIntermediate
  /-- In a control sequence, which a character from `@` to `~` ends. -/
  | control
  /-- At the start of a device control string. -/
  | device
  /-- In the parameters of a device control string. -/
  | deviceParameter
  /-- In the intermediate characters of a device control string. -/
  | deviceIntermediate
  /-- In an operating system command, which a bell ends. -/
  | command
  /-- In the body of any other string, which a character with the byte 9C in it ends. -/
  | string
  deriving DecidableEq, Repr

/-- Whether a character is a control character that leaves a blank. -/
def isControlBlank (c : Char) : Bool := c = '\t' || c = '\n' || c = '\x0c' || c = '\r'

/-- Whether a character has the byte that ends strings in its encoding. -/
def endsString (c : Char) : Bool := (String.utf8EncodeChar c).contains 0x9C

namespace Reader

/-- Whether a character shows: in plain text all but controls and the delete character do, in strings
none, and in any other sequence only control characters that leave a blank. -/
def shows (r : Reader) (c : Char) : Bool :=
  match r with
  | .ground => isControlBlank c || (0x20 ≤ c.toNat && c.toNat ≠ 0x7F)
  | .escape => isControlBlank c
  | .escapeIntermediate => isControlBlank c
  | .control => isControlBlank c
  | _ => false

/-- Where the reader stands after a character between the escape character and a letter, which decides
the kind of the sequence. -/
def afterEscape (n : Nat) : Reader :=
  if n < 0x20 then .escape
  else if n < 0x30 then .escapeIntermediate
  else if n = 0x50 then .device
  else if n = 0x58 || n = 0x5E || n = 0x5F then .string
  else if n = 0x5B then .control
  else if n = 0x5D then .command
  else if n < 0x7F then .ground
  else .escape

/-- Where the reader stands after a character that belongs to the sequence or does not show. Cancel and
substitute end every sequence, and the escape character begins a new one. -/
def next (r : Reader) (c : Char) : Reader :=
  let n := c.toNat
  if n = 0x18 || n = 0x1A then .ground
  else if n = 0x1B then .escape
  else
    match r with
    | .ground => .ground
    | .escape => afterEscape n
    | .escapeIntermediate => if 0x30 ≤ n && n < 0x7F then .ground else .escapeIntermediate
    | .control => if 0x40 ≤ n && n < 0x7F then .ground else .control
    | .device =>
      if n < 0x20 || 0x7F ≤ n then .device
      else if n < 0x30 then .deviceIntermediate
      else if n < 0x40 then .deviceParameter
      else .string
    | .deviceParameter =>
      if n < 0x20 || 0x7F ≤ n then .deviceParameter
      else if n < 0x30 then .deviceIntermediate
      else if n < 0x3C then .deviceParameter
      else .string
    | .deviceIntermediate => if 0x30 ≤ n && n < 0x7F then .string else .deviceIntermediate
    | .command => if n = 7 then .ground else .command
    | .string => if endsString c then .ground else .string

end Reader

end SourceBundle.Terminal
