import SourceBundle.Options.Basic

/-!
Reading arguments. They are read from left to right: `--name`, `--name=value`, bundles of one-letter
options, and values that follow their option as an argument of their own. An option's value is taken
note of when it is met but settled only when the next known option comes or the arguments end, so an
unknown argument in between is reported first. What excludes each other is looked at last.
-/

namespace SourceBundle

/-- The form of one argument. -/
inductive Argument where
  /-- Two dashes alone: all that follows is taken as it is. -/
  | escape
  | long (name : Bytes) (value : Option Bytes)
  | bundle (letters : Bytes)
  | plain (text : Bytes)
  deriving DecidableEq, Repr

namespace Argument

/-- The equals sign. -/
def equals : UInt8 := 0x3D

/-- A name and what follows the first equals sign, if there is one. -/
def splitEquals (text : Bytes) : Bytes × Option Bytes :=
  match text.dropWhile (· != equals) with
  | [] => (text, none)
  | _ :: value => (text.takeWhile (· != equals), some value)

/-- The form of an argument. A single dash alone is plain. -/
def ofBytes : Bytes → Argument
  | [0x2D, 0x2D] => .escape
  | 0x2D :: 0x2D :: rest => .long (splitEquals rest).1 (splitEquals rest).2
  | 0x2D :: b :: rest => .bundle (b :: rest)
  | text => .plain text

end Argument

/-- What is known after some arguments. -/
structure Reading where
  options : Options
  /-- The options given, in the order in which they were settled. -/
  given : List Flag
  /-- An option whose value is not settled yet, with the value if it was met. -/
  pending : Option (Flag × Option Bytes)
  /-- Whether the arguments that follow are taken as they are. -/
  escaped : Bool
  deriving DecidableEq, Repr

namespace Reading

/-- Before the first argument. -/
def start : Reading := ⟨.none, [], none, false⟩

/-- The result of taking an argument. -/
abbrev Result := Except Interruption Reading

/-- Refuses the arguments. -/
def refuse (error : UsageError) : Result := .error (.refused error)

/-- Notes that an option was given, which must be for the first time. -/
def note (r : Reading) (flag : Flag) : Result :=
  if flag ∈ r.given then refuse (.repeated flag) else .ok { r with given := r.given ++ [flag] }

/-- Sets an option to a path. -/
def store (r : Reading) (flag : Flag) (value : Bytes) : Reading :=
  match flag with
  | .root => { r with options := { r.options with root := some ⟨value⟩ } }
  | .output => { r with options := { r.options with output := some ⟨value⟩ } }
  | _ => r

/-- Settles an option with its value: one must be there, the option must be new, and the value must
not be empty. -/
def assign (r : Reading) (flag : Flag) : Option Bytes → Result
  | none => refuse (.missingValue flag)
  | some value => do
    let r ← r.note flag
    if value.isEmpty then refuse (.missingValue flag) else .ok (r.store flag value)

/-- Settles the option that waits, if one does. -/
def settle (r : Reading) : Result :=
  match r.pending with
  | none => .ok r
  | some (flag, value) => { r with pending := none }.assign flag value

/-- Takes an option that needs no value. -/
def flip (r : Reading) (flag : Flag) : Result := do
  let r ← r.settle
  match flag with
  | .stdout => (fun r => { r with options := { r.options with stdout := true } }) <$> r.note flag
  | .sorted => (fun r => { r with options := { r.options with sorted := true } }) <$> r.note flag
  | .verbose =>
    .ok { r with options := { r.options with verbose := min maxVerbose (r.options.verbose + 1) } }
  | .version => .error .version
  | _ => .ok r

/-- Ends the reading with help, once what waits is settled. -/
def callHelp (r : Reading) (full : Bool) : Result := do
  let _ ← r.settle
  .error (.help full)

/-- Takes an option with a value attached to it. -/
def attach (r : Reading) (flag : Flag) (value : Bytes) : Result := do
  let r ← r.settle
  r.assign flag (some value)

/-- Takes an option whose value is to follow. -/
def await (r : Reading) (flag : Flag) : Result := do
  let r ← r.settle
  .ok { r with pending := some (flag, none) }

/-- The option of a long name. -/
def named? (name : Bytes) : Option Flag := Flag.all.find? fun f => Bytes.ofString f.name = name

/-- Takes an argument that begins with two dashes. -/
def long (r : Reading) (name : Bytes) (value : Option Bytes) : Result :=
  match named? name, value with
  | none, _ => refuse (.unexpected ("--" ++ Utf8.replaceBroken name))
  | some .root, none => r.await .root
  | some .output, none => r.await .output
  | some .root, some value => r.attach .root value
  | some .output, some value => r.attach .output value
  | some flag, some value => refuse (.unneededValue flag (Utf8.replaceBroken value))
  | some .help, none => r.callHelp true
  | some flag, none => r.flip flag

/-- The text that names an unknown letter: the character itself, or all that is left if it is none. -/
def strayLetter (letters : Bytes) : String :=
  match Utf8.pieces letters with
  | .char c :: _ => "-" ++ c.toString
  | _ => "-" ++ Utf8.replaceBroken letters

/-- Takes a bundle of one-letter options. The rest of the bundle after `o`, less an equals sign, is
the value of that option. -/
def bundle (r : Reading) : Bytes → Result
  | [] => .ok r
  | 0x76 :: rest => do bundle (← r.flip .verbose) rest
  | 0x68 :: _ => r.callHelp false
  | 0x56 :: _ => r.flip .version
  | 0x6F :: rest =>
    match rest with
    | [] => r.await .output
    | b :: value => r.attach .output (if b = Argument.equals then value else b :: value)
  | letters => refuse (.unexpected (strayLetter letters))

/-- Takes an argument that is no option: the value of the option that waits for one, or a mistake. -/
def plain (r : Reading) (text : Bytes) : Result :=
  match r.pending with
  | some (flag, none) => .ok { r with pending := some (flag, some text) }
  | _ => refuse (.unexpected (Utf8.replaceBroken text))

/-- Takes one argument. -/
def take (r : Reading) (text : Bytes) : Result :=
  if r.escaped then refuse (.unexpected (Utf8.replaceBroken text))
  else
    match Argument.ofBytes text with
    | .escape => .ok { r with escaped := true }
    | .long name value => r.long name value
    | .bundle letters => r.bundle letters
    | .plain text => r.plain text

/-- What the arguments ask for, once they have ended. -/
def finish (r : Reading) : Except Interruption Options := do
  let r ← r.settle
  match r.given.filter fun f => f = .output || f = .stdout with
  | first :: second :: _ => .error (.refused (.conflict first second))
  | _ => .ok r.options

end Reading

/-- What the arguments ask for. -/
def Options.ofArguments (arguments : List Bytes) : Except Interruption Options := do
  (← arguments.foldlM Reading.take Reading.start).finish

end SourceBundle
