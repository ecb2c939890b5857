import SourceBundle.Disk.World

/-!
Changing the disk: writing a file, making directories and links, taking entries away, renaming. Each
operation answers with the changed world or with the reason why nothing changed; only making a chain
of directories can do a part of its work and then fail.
-/

namespace SourceBundle.World

/-- Puts a node under a name in a directory; a removed directory takes none. -/
def enter (w : World) (place : Place) (name : Name) (node : Node) : Except IoError World :=
  match place with
  | .named trail => .ok { w with disk := w.disk.put trail name node }
  | .removed _ => .error (.os .noEntry)

/-- Replaces what stands at a place. -/
def overwrite (w : World) (place : Place) (node : Node) : World :=
  match place with
  | .named trail =>
    match trail.getLast? with
    | some name => { w with disk := w.disk.put trail.dropLast name node }
    | none => w
  | .removed _ => w

/-- Writes a file in one go: an existing one loses all it held, a missing one is made in its
directory, and a last link is followed either way. -/
def writeFile (w : World) (p : Path) (content : Bytes) : Except IoError World :=
  match p.refusal? with
  | some cause => .error cause
  | none =>
    match w.disk.approach maxLinks (Disk.origin p w.cwd) p.steps p.endsInSlash with
    | .blocked cause => .error (.os cause)
    | .vacant place name _ => w.enter place name (.file content)
    | .found place _ =>
      match w.disk.node? place with
      | some (.file _) => .ok (w.overwrite place (.file content))
      | some (.device .full) => if content.isEmpty then .ok w else .error (.os .noSpace)
      | some (.device .null) => .ok w
      | _ => .error (.os .isDirectory)

/-- Puts a new node at a path where nothing stands yet; a last link counts as something. -/
def createNode (w : World) (p : Path) (node : Node) : Except IoError World :=
  match p.refusal? with
  | some cause => .error cause
  | none =>
    match w.disk.chase false maxLinks (Disk.origin p w.cwd) p.steps false with
    | .blocked cause => .error (.os cause)
    | .found _ _ => .error (.os .alreadyExists)
    | .vacant place name _ => w.enter place name node

/-- Makes one directory. -/
def makeDirectory (w : World) (p : Path) : Except IoError World := w.createNode p (.directory [])

/-- Makes one directory, content with one that is already there. -/
def ensureDirectory (w : World) (p : Path) : Except IoError World :=
  match w.makeDirectory p with
  | .ok w => .ok w
  | .error cause =>
    if cause = .os .alreadyExists ∧ w.isDirectory p then .ok w else .error cause

/-- Makes the first directory of the list; where its parent is missing, the rest of the list, which
leads upwards, comes first. What was made before a failure stays. -/
def ensureChain (w : World) : List Path → World × Except IoError Unit
  | [] => (w, .ok ())
  | p :: above =>
    if p.isEmpty then (w, .ok ())
    else
      match w.ensureDirectory p with
      | .ok w => (w, .ok ())
      | .error cause =>
        if cause = .os .noEntry then
          match w.ensureChain above with
          | (w, .error cause) => (w, .error cause)
          | (w, .ok ()) =>
            match w.ensureDirectory p with
            | .ok w => (w, .ok ())
            | .error cause => (w, .error cause)
        else (w, .error cause)

/-- Makes a directory and all that are missing above it. -/
def ensureDirectories (w : World) (p : Path) : World × Except IoError Unit :=
  w.ensureChain p.ancestors

/-- Makes a link. -/
def makeLink (w : World) (p target : Path) : Except IoError World := w.createNode p (.link target)

/-- Takes away what a path names, with all below it; a link is taken away, not followed. -/
def remove (w : World) (p : Path) : Except IoError World :=
  match w.inspect p with
  | .error cause => .error cause
  | .ok (.named trail, _) =>
    match trail.getLast? with
    | some name => .ok { w with disk := w.disk.erase trail.dropLast name }
    | none => .error (.os .isDirectory)
  | .ok (.removed _, _) => .error (.os .noEntry)

/-- Gives what a path names another path. -/
def rename (w : World) (source target : Path) : Except IoError World :=
  match w.inspect source with
  | .error cause => .error cause
  | .ok (_, node) =>
    match w.remove source with
    | .error cause => .error cause
    | .ok cleared =>
      match cleared.locate false target with
      | .blocked cause => .error (.os cause)
      | .found place _ => .ok (cleared.overwrite place node)
      | .vacant place name _ => cleared.enter place name node

end SourceBundle.World
