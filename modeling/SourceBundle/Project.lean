import SourceBundle.Disk.Canonical
import SourceBundle.Disk.Change
import SourceBundle.Failure.Basic

/-!
The two ends of a run: the directory to collect from, which must exist and is brought to its canonical
form, and the file to write the document to, whose parent directories are made as needed. In both a
leading tilde stands for the home directory. Paths pass through their shown text on the way.
-/

namespace SourceBundle

/-- The file that is written when none is named. -/
def defaultOutput : String := "code_prompt.txt"

/-- A text with its leading tilde replaced by the home directory; the tilde must stand alone or before
a slash. -/
def expandTilde (home text : String) : String :=
  match text.toList with
  | '~' :: rest => if rest = [] ∨ rest.head? = some '/' then home ++ String.ofList rest else text
  | _ => text

namespace World

/-- A path given by the user, its leading tilde replaced. -/
def expand (w : World) (p : Path) : Path := .ofString (expandTilde w.home p.shown)

/-- The project root: the given path, or else the current directory, in canonical form. -/
def projectRoot (w : World) (given : Option Path) : Except Failure Path :=
  match given.elim w.currentDirectory (fun p => .ok (w.expand p)) with
  | .error cause => .error (.io cause)
  | .ok path =>
    match w.canonical path with
    | .error cause => .error (.setup (.unresolvedRoot path cause))
    | .ok resolved =>
      if w.isDirectory resolved then .ok resolved
      else .error (.setup (.rootNotDirectory resolved))

/-- The path of the file to write: the given one, or else the default. -/
def outputPath (w : World) (given : Option Path) : Path :=
  match given with
  | some path => w.expand path
  | none => .ofString defaultOutput

/-- Makes the parent directories of a path. -/
def prepareParent (w : World) (p : Path) : World × Except Failure Unit :=
  match p.parent? with
  | none => (w, .ok ())
  | some parent =>
    if parent.isEmpty then (w, .ok ())
    else
      match w.ensureDirectories parent with
      | (w, .ok ()) => (w, .ok ())
      | (w, .error cause) => (w, .error (.write parent cause))

/-- Writes a document to a path, in place of what the file held. Parent directories that were made
stay even when the writing fails. -/
def writeDocument (w : World) (p : Path) (text : String) : World × Except Failure Unit :=
  match w.prepareParent p with
  | (w, .error failure) => (w, .error failure)
  | (w, .ok ()) =>
    match w.writeFile p (Bytes.ofString text) with
    | .ok w => (w, .ok ())
    | .error cause => (w, .error (.write p cause))

end World

end SourceBundle
