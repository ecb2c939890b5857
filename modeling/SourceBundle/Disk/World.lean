import SourceBundle.Disk.Route

/-!
What a program sees of the system: the disk, the directory it runs in, and the home directory. Here
stand the questions that change nothing: what a path leads to, what a file holds, where the program
runs.
-/

namespace SourceBundle

/-- The system around a program. -/
structure World where
  disk : Disk
  /-- The current directory. -/
  cwd : Place
  /-- The value of the variable that names the home directory. -/
  homeVariable : Option String
  /-- The home directory of the account, for when the variable is unset or empty. -/
  accountHome : String

namespace World

/-- The home directory. -/
def home (w : World) : String :=
  match w.homeVariable with
  | some value => if value.isEmpty then w.accountHome else value
  | none => w.accountHome

/-- Follows a path from the current directory. -/
def locate (w : World) (followLast : Bool) (p : Path) : Disk.Goal :=
  w.disk.chase followLast maxLinks (Disk.origin p w.cwd) p.steps p.endsInSlash

/-- What is found at the end of a walk: a slash at the end of the path demands a directory. -/
def settle (w : World) : Disk.Goal → Except IoError (Place × Node)
  | .found place slash =>
    match w.disk.node? place with
    | none => .error (.os .noEntry)
    | some node =>
      if slash && !node.isDirectory then .error (.os .notDirectory) else .ok (place, node)
  | .vacant _ _ _ => .error (.os .noEntry)
  | .blocked cause => .error (.os cause)

/-- What a path leads to, a last link followed. -/
def follow (w : World) (p : Path) : Except IoError (Place × Node) :=
  match p.refusal? with
  | some cause => .error cause
  | none => w.settle (w.locate true p)

/-- What a path names, a last link not followed. -/
def inspect (w : World) (p : Path) : Except IoError (Place × Node) :=
  match p.refusal? with
  | some cause => .error cause
  | none => w.settle (w.locate false p)

/-- Whether a path leads to a directory. -/
def isDirectory (w : World) (p : Path) : Bool :=
  match w.follow p with
  | .ok (_, node) => node.isDirectory
  | .error _ => false

/-- The bytes of the file to which a path leads. A device gives none. For the full one that is a stopgap,
since reading it never ends: what is said of a world is meant where no file to read leads to it. -/
def read (w : World) (p : Path) : Except IoError Bytes :=
  match w.follow p with
  | .error cause => .error cause
  | .ok (_, .file content) => .ok content
  | .ok (_, .directory _) => .error (.os .isDirectory)
  | .ok (_, _) => .ok []

/-- The path of the current directory, unless it was removed. -/
def currentDirectory (w : World) : Except IoError Path :=
  match w.cwd with
  | .named trail => .ok (.ofTrail trail)
  | .removed _ => .error (.os .noEntry)

end World

end SourceBundle
