import SourceBundle.Collection.Walk

/-!
The result of a walk: the files that were collected and the failures of those that could not be read,
each in the order of the walk.
-/

namespace SourceBundle

/-- The files of a project, and what could not be read of it. -/
structure Collection where
  files : List Entry
  failures : List Failure
  deriving DecidableEq, Repr

/-- The file that a visit collected. -/
def Visit.entry? : Visit → Option Entry
  | .collected entry => some entry
  | _ => none

/-- The failure of a visit to a selected file. -/
def Visit.failure? : Visit → Option Failure
  | .unreadable path cause => some (.read path cause)
  | _ => none

namespace Collection

/-- What the visits of a walk collected. -/
def ofVisits (visits : List Visit) : Collection :=
  ⟨visits.filterMap Visit.entry?, visits.filterMap Visit.failure?⟩

/-- The document of the collection. -/
def render (c : Collection) : String := document c.files

/-- The size of all collected texts together, in bytes. -/
def totalBytes (c : Collection) : Nat :=
  c.files.foldr (fun file total => file.content.utf8ByteSize + total) 0

end Collection

/-- Collects every selected file below `root`. -/
def World.collect (w : World) (config : Config) (root : Path) : Collection :=
  .ofVisits (w.walk config root)

end SourceBundle
