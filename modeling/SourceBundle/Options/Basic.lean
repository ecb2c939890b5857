import SourceBundle.Path.Basic

/-!
The options of the program, and the ways in which a list of arguments can be something else than a
request to collect: a call for help or for the version, or a mistake.
-/

namespace SourceBundle

/-- The options that the program knows. -/
inductive Flag where
  | root
  | output
  | stdout
  | sorted
  | verbose
  | help
  | version
  deriving DecidableEq, Repr

namespace Flag

/-- The long name, without dashes. -/
def name : Flag → String
  | .root => "root"
  | .output => "output"
  | .stdout => "stdout"
  | .sorted => "sorted"
  | .verbose => "verbose"
  | .help => "help"
  | .version => "version"

/-- The one-letter name, if there is one. -/
def letter? : Flag → Option Char
  | .output => some 'o'
  | .verbose => some 'v'
  | .help => some 'h'
  | .version => some 'V'
  | _ => none

/-- What follows the name where the option is written out: the word for its value, or the sign that it
may be repeated. -/
def tail : Flag → String
  | .root => " <PATH>"
  | .output => " <FILE>"
  | .verbose => "..."
  | _ => ""

/-- The option written out, as messages name it. -/
def label (f : Flag) : String := "--" ++ f.name ++ f.tail

/-- All options. -/
def all : List Flag := [.root, .output, .stdout, .sorted, .verbose, .help, .version]

end Flag

/-- What the program is asked to do. -/
structure Options where
  /-- The directory to collect from, if one is given. -/
  root : Option Path
  /-- The file to write, if one is given. -/
  output : Option Path
  /-- Whether the document goes to standard output instead. -/
  stdout : Bool
  /-- Whether listings are taken in the order of names. -/
  sorted : Bool
  /-- How much is logged. -/
  verbose : Nat
  deriving DecidableEq, Repr

/-- No option given. -/
def Options.none : Options := ⟨.none, .none, false, false, 0⟩

/-- The greatest level of verbosity; further repetitions do not raise it. -/
def maxVerbose : Nat := 255

/-- Why arguments are refused. -/
inductive UsageError where
  /-- An argument that is neither a known option nor the value of one. -/
  | unexpected (text : String)
  /-- An option without its value, or with an empty one. -/
  | missingValue (flag : Flag)
  /-- A value for an option that takes none. -/
  | unneededValue (flag : Flag) (value : String)
  /-- An option given twice. -/
  | repeated (flag : Flag)
  /-- Two options that exclude each other, the one given first named first. -/
  | conflict (first second : Flag)
  deriving DecidableEq, Repr

/-- What ends the reading of arguments before a run. -/
inductive Interruption where
  /-- A call for help, in full or in short. -/
  | help (full : Bool)
  | version
  | refused (error : UsageError)
  deriving DecidableEq, Repr

end SourceBundle
