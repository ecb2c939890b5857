import SourceBundle.Disk.World

/-!
The canonical form of a path: absolute, and without links. It is built name by name from the root or
the current directory, and every new name is asked for by the whole path built so far. So the path
itself may be of any length, but each step of its canonical form must be one that the system takes.
Cut into straight stretches like any walk, it recurses on the names of a stretch and on the links left.
-/

namespace SourceBundle

namespace Disk

/-- What stands under a name of the directory at `trail`, asked for by its whole path. -/
def entry (d : Disk) (trail : List Name) (name : Name) : Except Errno Node :=
  if maxPath ≤ (Path.ofTrail (trail ++ [name])).bytes.length then .error .nameTooLong
  else
    match d.node? (.named trail) with
    | some (.directory entries) =>
      if maxName < name.length then .error .nameTooLong
      else
        match Listing.find? entries name with
        | some node => .ok node
        | none => .error .noEntry
    | _ => .error .notDirectory

/-- Whether what comes after a name demands a directory there: nothing but dots and slashes up to the
end, or a step back up. -/
def demandsDirectory (rest : List Name) (slash : Bool) : Bool :=
  match rest.dropWhile (· = Bytes.dot) with
  | [] => slash || !rest.isEmpty
  | name :: _ => name = Bytes.dotDot

/-- What was found at a place of which a directory is demanded: the place is asked for once more, by its
path with a slash at the end. -/
def checkDirectory (trail : List Name) (found : Except Errno Node) : Except Errno Node :=
  if maxPath ≤ (Path.ofTrail trail).bytes.length + 1 then .error .nameTooLong
  else
    match found with
    | .error cause => .error cause
    | .ok node => if node.isDirectory then .ok node else .error .notDirectory

/-- How far a canonical trail is built in one go. -/
inductive Stretch where
  /-- All names are walked. -/
  | whole (trail : List Name)
  /-- Below `trail` a link stands, and `rest` comes after it. -/
  | bent (trail : List Name) (target : Path) (rest : List Name)
  | blocked (cause : Errno)
  deriving DecidableEq, Repr

/-- Builds the canonical trail up to the next link. -/
def straighten (d : Disk) (slash : Bool) : List Name → List Name → Stretch
  | trail, [] => .whole trail
  | trail, name :: rest =>
    if name = Bytes.dot then straighten d slash trail rest
    else if name = Bytes.dotDot then straighten d slash trail.dropLast rest
    else
      match d.entry trail name with
      | .ok (.link target) => .bent trail target rest
      | found =>
        let here := trail ++ [name]
        match if demandsDirectory rest slash then checkDirectory here found else found with
        | .error cause => .blocked cause
        | .ok _ => straighten d slash here rest

/-- Builds the canonical trail, with at most `links` links on the way. -/
def resolve (d : Disk) (links : Nat) (trail names : List Name) (slash : Bool) :
    Except Errno (List Name) :=
  match d.straighten slash trail names with
  | .whole trail => .ok trail
  | .blocked cause => .error cause
  | .bent trail target rest =>
    match links with
    | 0 => .error .tooManyLinks
    | links + 1 =>
      resolve d links (if target.isAbsolute then [] else trail) (target.steps ++ rest)
        (slash || (rest.isEmpty && target.endsInSlash))

end Disk

/-- The absolute path without links that leads to the same place. A relative path needs a current
directory that still exists. -/
def World.canonical (w : World) (p : Path) : Except IoError Path :=
  if p.bytes.contains 0 then .error .nulInPath
  else if p.isEmpty then .error (.os .noEntry)
  else
    match Disk.origin p w.cwd with
    | .removed _ => .error (.os .noEntry)
    | .named trail =>
      match w.disk.resolve maxLinks trail p.steps p.endsInSlash with
      | .error cause => .error (.os cause)
      | .ok trail => .ok (.ofTrail trail)

end SourceBundle
