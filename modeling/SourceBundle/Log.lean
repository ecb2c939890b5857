import SourceBundle.Collection.Basic
import SourceBundle.Options.Basic
import SourceBundle.Terminal.Plain
import SourceBundle.Terminal.Style
import SourceBundle.Text.Quoted

/-!
The log. What happens in a run is noted as events; each has a level, the part of the program that it
comes from, and a wording. How much of the log is shown is a matter of filtering events by level.
-/

namespace SourceBundle

/-- How weighty an event is. -/
inductive Level where
  | warn
  | info
  | debug
  | trace
  deriving DecidableEq, Repr

namespace Level

/-- The rank of a level: the greater, the more detailed. -/
def rank : Level → Nat
  | .warn => 0
  | .info => 1
  | .debug => 2
  | .trace => 3

/-- The most detailed level that a verbosity shows. -/
def ofVerbosity : Nat → Level
  | 0 => .warn
  | 1 => .info
  | 2 => .debug
  | _ => .trace

/-- The name of the level in capitals. -/
def capitals : Level → String
  | .warn => "WARN"
  | .info => "INFO"
  | .debug => "DEBUG"
  | .trace => "TRACE"

/-- The name of the level. -/
def name : Level → String
  | .warn => "Warn"
  | .info => "Info"
  | .debug => "Debug"
  | .trace => "Trace"

/-- The colour of the level on a terminal. -/
def colour : Level → String
  | .warn => "33"
  | .info => "32"
  | .debug => "34"
  | .trace => "36"

/-- Whether an event of the first level shows when the log goes down to the second. -/
def shows (event limit : Level) : Bool := event.rank ≤ limit.rank

end Level

/-- What can happen in a run. -/
inductive Event where
  | loggerReady (limit : Level)
  | argumentsRead (options : Options)
  | rootResolved (path : Path)
  | rootDetermined (path : Path)
  | walkStarted (root : Path)
  | visited (visit : Visit)
  | walkFinished (read failed : Nat)
  /-- A failure of the walk, told once more to a caller who gets only the document. -/
  | reported (failure : Failure)
  | written (path : Path) (bytes : Nat)
  | finished
  | leaving (code : Nat)
  deriving DecidableEq, Repr

/-- A line of the log. -/
structure Record where
  level : Level
  /-- The part of the program that it comes from. -/
  source : String
  message : String
  deriving DecidableEq, Repr

/-- Yes or no, as options are logged. -/
def truth (b : Bool) : String := if b then "true" else "false"

/-- A path that may be missing, as options are logged. -/
def optionalPath : Option Path → String
  | none => "None"
  | some path => "Some(" ++ Text.quoted path ++ ")"

/-- The options as they are logged. -/
def Options.logged (o : Options) : String :=
  "Cli \x7b root: " ++ optionalPath o.root ++ ", output: " ++ optionalPath o.output ++
    ", stdout: " ++ truth o.stdout ++ ", sorted: " ++ truth o.sorted ++
    ", verbose: " ++ toString o.verbose ++ " \x7d"

/-- How a visit is logged. -/
def Visit.record : Visit → Record
  | .pruned path =>
    ⟨.trace, "codeprompt_core::gather", "Pruning excluded directory: " ++ path.shown⟩
  | .unselected path => ⟨.trace, "codeprompt_core::gather", "Not selected: " ++ path.shown⟩
  | .collected entry =>
    ⟨.debug, "codeprompt_core::gather",
      "Read " ++ entry.relativePath.shown ++ " (" ++ toString entry.content.utf8ByteSize ++ " bytes)"⟩
  | .unreadable path cause =>
    ⟨.debug, "codeprompt_core::gather", (Failure.read path cause).message⟩
  | .unlisted path cause =>
    ⟨.warn, "codeprompt_core::gather",
      "Error walking directory: IO error for operation on " ++ path.shown ++ ": " ++ cause.message⟩

/-- How an event is logged. -/
def Event.record : Event → Record
  | .loggerReady limit =>
    ⟨.trace, "codeprompt", "Logger initialized with level: " ++ limit.name⟩
  | .argumentsRead options => ⟨.debug, "codeprompt", "CLI args parsed: " ++ options.logged⟩
  | .rootResolved path =>
    ⟨.debug, "codeprompt_core::config", "Resolved project root: " ++ path.shown⟩
  | .rootDetermined path => ⟨.info, "codeprompt", "Project root determined: " ++ path.shown⟩
  | .walkStarted root =>
    ⟨.info, "codeprompt_core::gather", "Walking project directory: " ++ root.shown⟩
  | .visited visit => visit.record
  | .walkFinished read failed =>
    ⟨.info, "codeprompt_core::gather",
      "Directory walk complete. Read " ++ toString read ++ " files, " ++ toString failed ++ " failed."⟩
  | .reported failure => ⟨.warn, "codeprompt_core::collect", failure.message⟩
  | .written path bytes =>
    ⟨.info, "codeprompt_core::prompt",
      "Wrote " ++ toString bytes ++ " bytes to " ++ path.shown⟩
  | .finished => ⟨.info, "codeprompt", "Application finished successfully."⟩
  | .leaving code => ⟨.debug, "codeprompt", "Exiting with code " ++ toString code⟩

/-- A line of the log as it is printed: level and source in brackets, then the message, whose further
lines are indented. -/
def Record.line (colours : Bool) (r : Record) : String :=
  let level := r.level.capitals ++ "".pushn ' ' (5 - r.level.capitals.length)
  let indented := "\n    ".intercalate (r.message.splitOn "\n")
  let text :=
    Terminal.paint colours ["90"] "[" ++ Terminal.paint colours [r.level.colour] level ++ " " ++
      r.source ++ Terminal.paint colours ["90"] "]" ++ " " ++ indented ++ "\n"
  if colours then text else Terminal.strip .resumed text

/-- The events of a walk. -/
def walkEvents (root : Path) (visits : List Visit) : List Event :=
  let c := Collection.ofVisits visits
  .walkStarted root :: visits.map .visited ++ [.walkFinished c.files.length c.failures.length]

end SourceBundle
