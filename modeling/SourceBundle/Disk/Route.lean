import SourceBundle.Disk.Node
import SourceBundle.Failure.Basic

/-!
Following a path over the disk. The names are walked one after the other; each must stand in a
directory. Where a link stands, its target is walked in its stead, and no more than forty links are
followed in all. The walk is cut into straight stretches, which end at the next link, so both parts
recurse on their data: a stretch on its names, the whole on the links left.
-/

namespace SourceBundle

/-- Where a straight stretch of a walk ends. -/
inductive Halt where
  /-- All names are walked. -/
  | found (place : Place)
  /-- All names but the last are walked, and the directory `place` has no such entry. -/
  | vacant (place : Place) (name : Name)
  /-- An entry of the directory `place` is a link to follow, and `rest` comes after it. -/
  | link (place : Place) (target : Path) (rest : List Name)
  | blocked (cause : Errno)
  deriving DecidableEq, Repr

/-- The longest name that a directory can hold. -/
def maxName : Nat := 255

/-- The length at which a path becomes too long for the system. -/
def maxPath : Nat := 4096

/-- How many links one walk may follow. -/
def maxLinks : Nat := 40

namespace Disk

/-- Walks names up to the next link to follow, with `here` for what stands at the place. With
`followLast` a link under the last name is followed like any other; without it, the link itself is
what is found. -/
def advanceFrom (d : Disk) (followLast : Bool) : Place → Option Node → List Name → Halt
  | place, _, [] => .found place
  | place, some (.directory entries), name :: rest =>
    if name = Bytes.dot then advanceFrom d followLast place (some (.directory entries)) rest
    else if name = Bytes.dotDot then
      advanceFrom d followLast place.parent (d.node? place.parent) rest
    else
      match place with
      | .removed _ => if rest.isEmpty then .vacant place name else .blocked .noEntry
      | .named _ =>
        if maxName < name.length then .blocked .nameTooLong
        else
          match Listing.find? entries name with
          | none => if rest.isEmpty then .vacant place name else .blocked .noEntry
          | some (.link target) =>
            if rest.isEmpty && !followLast then .found (place.child name)
            else .link place target rest
          | some node => advanceFrom d followLast (place.child name) (some node) rest
  | _, _, _ :: _ => .blocked .notDirectory

/-- Walks names from a place up to the next link to follow. -/
def advance (d : Disk) (followLast : Bool) (place : Place) (names : List Name) : Halt :=
  d.advanceFrom followLast place (d.node? place) names

/-- Where a walk ends. `slash` tells that the path asks for a directory by ending in a slash. -/
inductive Goal where
  | found (place : Place) (slash : Bool)
  | vacant (place : Place) (name : Name) (slash : Bool)
  | blocked (cause : Errno)
  deriving DecidableEq, Repr

/-- Where a path starts: at the root, or at the place from which it is read. -/
def origin (path : Path) (base : Place) : Place :=
  if path.isAbsolute then .named [] else base

/-- Walks names and the links on the way, at most `links` of them. -/
def chase (d : Disk) (followLast : Bool) (links : Nat) (place : Place) (names : List Name)
    (slash : Bool) : Goal :=
  match d.advance (followLast || slash) place names with
  | .found place => .found place slash
  | .vacant place name => .vacant place name slash
  | .blocked cause => .blocked cause
  | .link place target rest =>
    match links with
    | 0 => .blocked .tooManyLinks
    | links + 1 =>
      chase d followLast links (origin target place) (target.steps ++ rest)
        (slash || (rest.isEmpty && target.endsInSlash))

/-- A name that a slash follows can hold no file: the way to it is walked, and then it is refused as a
directory would be, whatever stands there. -/
def refuseSlash (d : Disk) (links : Nat) (place : Place) (names : List Name) : Errno :=
  match d.chase true links place names.dropLast false with
  | .blocked cause => cause
  | .vacant _ _ _ => .noEntry
  | .found place _ =>
    match d.node? place with
    | some (.directory _) => .isDirectory
    | some _ => .notDirectory
    | none => .noEntry

/-- Walks names to where a file is to be written, a last link followed. A slash at the end is refused
before the last name is looked up, be it the path's own or that of a last link's target. -/
def approach (d : Disk) (links : Nat) (place : Place) (names : List Name) (slash : Bool) : Goal :=
  if slash then .blocked (d.refuseSlash links place names)
  else
    match d.advance true place names with
    | .found place => .found place false
    | .vacant place name => .vacant place name false
    | .blocked cause => .blocked cause
    | .link place target rest =>
      match links with
      | 0 => .blocked .tooManyLinks
      | links + 1 =>
        d.approach links (origin target place) (target.steps ++ rest)
          (rest.isEmpty && target.endsInSlash)

end Disk

/-- Why a path is refused before any name is looked up. -/
def Path.refusal? (p : Path) : Option IoError :=
  if p.bytes.contains 0 then some .nulInPath
  else if p.isEmpty then some (.os .noEntry)
  else if maxPath ≤ p.bytes.length then some (.os .nameTooLong)
  else none

end SourceBundle
