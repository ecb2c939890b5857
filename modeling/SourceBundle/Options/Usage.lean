import SourceBundle.Options.Basic
import SourceBundle.Terminal.Plain
import SourceBundle.Terminal.Style
import SourceBundle.Text.Newline

/-!
What the program says about its own options: the help, in full and in short, the version, and the
first line of the message when arguments are refused.
-/

namespace SourceBundle

/-- The name under which the program is called. -/
def programName : String := "codeprompt"

/-- The name and number that the version shows. -/
def versionText : String := "codeprompt-cli 0.1.0\n"

namespace Usage

/-- The style of a name that is to be typed as it stands. -/
def literal (colours : Bool) (text : String) : String := Terminal.paint colours ["1"] text

/-- The style of a part of the arguments that is wrong. -/
def invalid (colours : Bool) (text : String) : String := Terminal.paint colours ["33"] text

/-- The style of a heading. -/
def heading (colours : Bool) (text : String) : String := Terminal.paint colours ["1", "4"] text

/-- An option in the help: what it is and what it does. -/
structure Item where
  flag : Flag
  purpose : String

/-- A part of the help under a heading of its own. -/
structure Section where
  title : String
  items : List Item

/-- The sections of the help. -/
def sections (full : Bool) : List Section :=
  [ ⟨"Options:",
      [ ⟨.verbose, "Increase message verbosity (-v, -vv)."⟩
      , ⟨.help, if full then "Print help (see a summary with '-h')"
          else "Print help (see more with '--help')"⟩
      , ⟨.version, "Print version"⟩ ]⟩
  , ⟨"Project Setup:",
      [ ⟨.root, "Directory to collect from (default: current dir)."⟩ ]⟩
  , ⟨"Output Control:",
      [ ⟨.output, "Write the prompt to FILE (default: code_prompt.txt)."⟩
      , ⟨.stdout, "Print the prompt to standard output instead of saving it."⟩
      , ⟨.sorted, "Sort directory listings by name for reproducible output."⟩ ]⟩ ]

/-- What the program does, in full and in short. -/
def about (full : Bool) : String :=
  if full then
    "codeprompt walks the project tree, picks source files by extension or exact name, \n" ++
      "and writes them as fenced code blocks to code_prompt.txt for use as LLM input. \n" ++
      "Run without arguments to collect the current directory."
  else "Collect project source files into a single prompt document."

/-- Calls of the program that show its use. -/
def examples : String :=
  "EXAMPLES:\n  codeprompt\n  codeprompt --root ~/src/kernel --sorted\n" ++
    "  codeprompt -o prompts/kernel.txt\n  codeprompt --stdout | wc -c\n"

/-- An option's names in the help, the one-letter name first. -/
def Item.names (colours : Bool) (i : Item) : String :=
  (match i.flag.letter? with
    | some c => "  " ++ literal colours ("-" ++ c.toString) ++ ", "
    | none => "      ") ++ literal colours ("--" ++ i.flag.name) ++ i.flag.tail

/-- The purpose on a line of its own. -/
def Item.tall (colours : Bool) (i : Item) : String :=
  i.names colours ++ "\n          " ++ i.purpose ++ "\n"

/-- The purpose beside the names, in the column that `width` leaves for these. -/
def Item.wide (colours : Bool) (width : Nat) (i : Item) : String :=
  i.names colours ++ "".pushn ' ' (width + 2 - i.flag.label.length) ++ i.purpose ++ "\n"

/-- A section of the help. -/
def Section.text (full colours : Bool) (s : Section) : String :=
  let width := s.items.foldl (fun w i => max w i.flag.label.length) 0
  heading colours s.title ++ "\n" ++
    (if full then "\n".intercalate (s.items.map (Item.tall colours))
    else String.join (s.items.map (Item.wide colours width)))

/-- The help. -/
def help (full colours : Bool) : String :=
  about full ++ "\n\n" ++ heading colours "Usage:" ++ " " ++ literal colours programName ++
    " [OPTIONS]\n\n" ++ "\n".intercalate ((sections full).map (Section.text full colours)) ++ "\n" ++
    examples

end Usage

namespace UsageError

/-- The wording of a refusal, in colours. -/
def message : UsageError → String
  | .unexpected text => "unexpected argument '" ++ Usage.invalid true text ++ "' found"
  | .missingValue flag =>
    "a value is required for '" ++ Usage.invalid true flag.label ++ "' but none was supplied"
  | .unneededValue flag value =>
    "unexpected value '" ++ Usage.invalid true value ++ "' for '" ++ Usage.literal true flag.label ++
      "' found; no more were expected"
  | .repeated flag =>
    "the argument '" ++ Usage.invalid true flag.label ++ "' cannot be used multiple times"
  | .conflict first second =>
    "the argument '" ++ Usage.invalid true first.label ++ "' cannot be used with '" ++
      Usage.invalid true second.label ++ "'"

/-- What is said when arguments are refused, in colours. -/
def report (e : UsageError) : String :=
  Terminal.paint true ["1", "31"] "error:" ++ " " ++ e.message

/-- The first line of a text. -/
def firstLine (text : String) : String := String.ofList (Newline.firstLine text.toList)

/-- The first line of the report as a plain text. -/
def plain (e : UsageError) : String := firstLine (Terminal.strip .givenUp e.report)

/-- The first line of the report as it is printed. Without colours it is stripped on its way out. -/
def printed (colours : Bool) (e : UsageError) : String :=
  firstLine (if colours then e.report else Terminal.strip .resumed e.report)

end UsageError

end SourceBundle
