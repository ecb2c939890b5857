import SourceBundle.Failure.Errno
import SourceBundle.Path.Basic

/-!
What can go wrong, as causes: an operation of the operating system is refused, the project root cannot
be used, a file cannot be read, the document cannot be written. The wording stands in `message`.
-/

namespace SourceBundle

/-- Why the operating system, or the way to it, refused an operation. -/
inductive IoError where
  | os (code : Errno)
  /-- A path with a NUL byte is refused before the system sees it. -/
  | nulInPath
  /-- Any other reason, in its own words. -/
  | other (text : String)
  deriving DecidableEq, Repr

/-- The wording of a refused operation. -/
def IoError.message : IoError → String
  | .os code => code.message
  | .nulInPath => "file name contained an unexpected NUL byte"
  | .other text => text

/-- Why a run is set up wrongly. -/
inductive SetupFault where
  /-- The path given for the project root leads nowhere. -/
  | unresolvedRoot (path : Path) (cause : IoError)
  /-- The path given for the project root leads to something else than a directory. -/
  | rootNotDirectory (path : Path)
  /-- Any other reason, in its own words. -/
  | other (text : String)
  deriving DecidableEq, Repr

/-- The wording of a fault in the setup. -/
def SetupFault.message : SetupFault → String
  | .unresolvedRoot path cause =>
    "Failed to resolve project root '" ++ path.shown ++ "': " ++ cause.message
  | .rootNotDirectory path => "Project root is not a directory: " ++ path.shown
  | .other text => text

/-- A failure of the library. -/
inductive Failure where
  | setup (fault : SetupFault)
  | io (cause : IoError)
  | read (path : Path) (cause : IoError)
  | write (path : Path) (cause : IoError)
  deriving DecidableEq, Repr

namespace Failure

/-- The wording of a failure. -/
def message : Failure → String
  | .setup fault => "Configuration Error: " ++ fault.message
  | .io cause => "Filesystem Error: " ++ cause.message
  | .read path cause => "Could not read " ++ path.shown ++ ": " ++ cause.message
  | .write path cause =>
    "File Write Error: Path '" ++ path.shown ++ "', Error: " ++ cause.message

/-- The refused operation behind the failure, if there is one. -/
def cause? : Failure → Option IoError
  | .setup _ => none
  | .io cause => some cause
  | .read _ cause => some cause
  | .write _ cause => some cause

/-- Whether the failure comes from the disk and not from how the run was set up. -/
def isIo (f : Failure) : Bool := f.cause?.isSome

end Failure

end SourceBundle
