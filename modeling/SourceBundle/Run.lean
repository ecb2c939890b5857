import SourceBundle.Collection.Summary
import SourceBundle.Log
import SourceBundle.Options.Arguments
import SourceBundle.Options.Usage
import SourceBundle.Project
import SourceBundle.Terminal.Environment

/-!
A whole run of the program, from its arguments to its exit code. What it prints to standard error is
kept as a list of items, so that what verbosity and colours do to it can be told from what happened.
-/

namespace SourceBundle

/-- How the system reports that it stops a program: what stands before and after the reason. It tells of
the process and of the way to the place, which are the system's to know. -/
structure Report where
  before : String
  after : String
  deriving DecidableEq, Repr

/-- What standard output does with what is printed. -/
inductive Sink where
  | open
  /-- Refuses every byte. A program that prints without a look at the result is stopped, and reported
  in this way. -/
  | full (report : Report)
  deriving DecidableEq, Repr

/-- What ends a run early. -/
inductive RunError where
  | root (failure : Failure)
  | output (path : Path) (failure : Failure)
  | stdout (cause : IoError)
  deriving DecidableEq, Repr

namespace RunError

/-- A failure with the refused operation behind it. -/
def chain (failure : Failure) : String :=
  match failure.cause? with
  | none => failure.message
  | some cause => failure.message ++ ": " ++ cause.message

/-- The wording of what ended the run. -/
def message : RunError → String
  | .root failure => "Failed to determine project root: " ++ chain failure
  | .output path failure => "Failed to save prompt to " ++ path.shown ++ ": " ++ chain failure
  | .stdout cause => "Failed to write to stdout: " ++ cause.message

/-- The failure of the library behind it, if there is one. -/
def failure? : RunError → Option Failure
  | .root failure => some failure
  | .output _ failure => some failure
  | .stdout _ => none

/-- The exit code: two where the disk is to blame, else one. -/
def exitCode (e : RunError) : Nat :=
  match e.failure? with
  | some failure => if failure.isIo then 2 else 1
  | none => 1

end RunError

/-- What is printed to standard error. -/
inductive Notice where
  | log (event : Event)
  /-- A file that could not be read. -/
  | skipped (failure : Failure)
  | fatal (error : RunError)
  | usage (error : UsageError)
  /-- The confirmation could not be printed, which ends the program on the spot. -/
  | abort (cause : IoError) (report : Report)
  deriving DecidableEq, Repr

/-- What a run leaves behind. -/
structure Outcome where
  world : World
  stdout : String
  stderr : List Notice
  exitCode : Nat

/-- The line that confirms that the document was saved. -/
def confirmation (colours : Bool) (path : Path) (c : Collection) : String :=
  Terminal.paint colours ["32"] "✅" ++ " Prompt saved to " ++
    Terminal.paintThrough colours ["34"] path.shown ++ " (" ++
    Terminal.paint colours ["2"] c.summary ++ ")\n"

/-- What a notice prints when the log goes down to `limit`. -/
def Notice.text (colours : Terminal.Colours) (limit : Level) : Notice → String
  | .log event =>
    if event.record.level.shows limit then event.record.line colours.log else ""
  | .skipped failure => Terminal.paint colours.console ["33"] "⚠️" ++ " " ++ failure.message ++ "\n"
  | .fatal error =>
    Terminal.paint colours.console ["1;31"] "Error:" ++ " " ++ error.message ++ "\n"
  | .usage error => error.printed colours.log
  | .abort cause report =>
    report.before ++ "failed printing to stdout: " ++ cause.message ++ report.after

/-- All that the notices print. -/
def errorText (colours : Terminal.Colours) (limit : Level) (notices : List Notice) : String :=
  String.join (notices.map (Notice.text colours limit))

namespace World

/-- The end of a run in which nothing went wrong. -/
def succeed (w : World) (stdout : String) (notices : List Notice) : Outcome :=
  ⟨w, stdout, notices ++ [.log .finished, .log (.leaving 0)], 0⟩

/-- The end of a run that an error stops. -/
def fail (w : World) (notices : List Notice) (error : RunError) : Outcome :=
  ⟨w, "", notices ++ [.fatal error, .log (.leaving error.exitCode)], error.exitCode⟩

/-- Prints the document. -/
def printDocument (w : World) (sink : Sink) (notices : List Notice) (text : String) : Outcome :=
  if text.isEmpty || sink = .open then w.succeed text notices
  else w.fail notices (.stdout (.os .noSpace))

/-- Saves the document and confirms it. -/
def saveDocument (w : World) (colours : Terminal.Colours) (sink : Sink) (notices : List Notice)
    (path : Path) (c : Collection) : Outcome :=
  let text := c.render
  match w.writeDocument path text with
  | (w, .error failure) => w.fail notices (.output path failure)
  | (w, .ok ()) =>
    let notices := notices ++ [.log (.written path text.utf8ByteSize)]
    match sink with
    | .open => w.succeed (confirmation colours.console path c) notices
    | .full report => ⟨w, "", notices ++ [.abort (.os .noSpace) report], 101⟩

/-- Collects and delivers the document, as the options ask. -/
def perform (w : World) (colours : Terminal.Colours) (sink : Sink) (o : Options) : Outcome :=
  let opening : List Notice :=
    [.log (.loggerReady (.ofVerbosity o.verbose)), .log (.argumentsRead o)]
  match w.projectRoot o.root with
  | .error failure => w.fail opening (.root failure)
  | .ok root =>
    let visits := w.walk ⟨.builtin, if o.sorted then .sorted else .discovery⟩ root
    let c := Collection.ofVisits visits
    let notices := opening ++ [.log (.rootResolved root), .log (.rootDetermined root)] ++
      (walkEvents root visits).map .log ++ c.failures.map .skipped
    if o.stdout then w.printDocument sink notices c.render
    else w.saveDocument colours sink notices (w.outputPath o.output) c

/-- Answers a call for help or for the version, or refuses the arguments. -/
def answer (w : World) (colours : Terminal.Colours) (sink : Sink) (i : Interruption) : Outcome :=
  let print (text : String) : Outcome := ⟨w, if sink = .open then text else "", [], 0⟩
  match i with
  | .help full => print (Usage.help full colours.log)
  | .version => print versionText
  | .refused error => ⟨w, "", [.usage error], 2⟩

/-- Runs the program. -/
def run (w : World) (colours : Terminal.Colours) (sink : Sink) (arguments : List Bytes) : Outcome :=
  match Options.ofArguments arguments with
  | .error interruption => w.answer colours sink interruption
  | .ok options => w.perform colours sink options

/-- Collects with the built-in rules; the answer is the document and the events on the way to it. -/
def collectDocument (w : World) (root : Path) : String × List Event :=
  let visits := w.walk .builtin root
  let c := Collection.ofVisits visits
  (c.render, walkEvents root visits ++ c.failures.map .reported)

end World

/-- The most detailed level that the arguments of a run ask for. -/
def logLimit (arguments : List Bytes) : Level :=
  match Options.ofArguments arguments with
  | .ok options => .ofVerbosity options.verbose
  | .error _ => .warn

end SourceBundle
