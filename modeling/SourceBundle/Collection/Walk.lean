import SourceBundle.Collection.Document
import SourceBundle.Disk.World
import SourceBundle.Path.Relative
import SourceBundle.Rules.Basic
import SourceBundle.Text.Reading

/-!
Walking a project. The walk visits every entry below the root, an excluded directory as a whole, and
says of each visit how it went. The files of a directory come before its subdirectories; a link to a
directory ranks with the directories and is not entered.

Files, failures and log are all read off the one list of visits. The walk recurses on the tree that
hangs under the root: each entry gives its visits by itself, and only then are the entries of a
directory put in order.
-/

namespace SourceBundle

/-- How a visit went. -/
inductive Visit where
  /-- An excluded directory, not entered. -/
  | pruned (path : Path)
  /-- A file that no rule selects. -/
  | unselected (path : Path)
  | collected (entry : Entry)
  /-- A selected file that could not be read. -/
  | unreadable (path : Path) (cause : IoError)
  /-- A directory that could not be listed. -/
  | unlisted (path : Path) (cause : IoError)
  deriving DecidableEq, Repr

/-- What an entry of a directory gives to the walk. -/
structure Branch where
  name : Name
  /-- Whether the entry ranks with the directories. -/
  isDirectory : Bool
  visits : List Visit
  deriving DecidableEq, Repr

namespace Branch

/-- The entries of a directory in the order in which they are visited. -/
def arrange (order : Order) (branches : List Branch) : List Branch :=
  let listed :=
    match order with
    | .discovery => branches
    | .sorted => branches.mergeSort fun a b => Bytes.le a.name b.name
  listed.filter (!·.isDirectory) ++ listed.filter (·.isDirectory)

/-- The visits of a directory's entries, in order. -/
def visitAll (order : Order) (branches : List Branch) : List Visit :=
  (arrange order branches).flatMap Branch.visits

end Branch

namespace World

/-- Looks at a file: whether it is selected, and if so, what it holds. -/
def visitFile (w : World) (rules : Rules) (root path : Path) (name : Name) : Visit :=
  let shown := Utf8.replaceBroken name
  if rules.inclusion.selects shown then
    match w.read path with
    | .ok bytes =>
      .collected ⟨path, (path.relativeTo? root).getD path, languageTag shown, Text.ofBytes bytes⟩
    | .error cause => .unreadable path cause
  else .unselected path

mutual

/-- The visits of one entry of a directory. -/
def branch (w : World) (config : Config) (root path : Path) (name : Name) : Node → Branch
  | .directory entries =>
    ⟨name, true,
      if config.rules.exclusion.excludes (Utf8.replaceBroken name) then [.pruned path]
      else
        match path.refusal? with
        | some cause => [.unlisted path cause]
        | none => Branch.visitAll config.order (branches w config root path entries)⟩
  | .link _ =>
    if w.isDirectory path then ⟨name, true, []⟩
    else ⟨name, false, [w.visitFile config.rules root path name]⟩
  | _ => ⟨name, false, [w.visitFile config.rules root path name]⟩

/-- The visits of each entry of the directory `path`. -/
def branches (w : World) (config : Config) (root path : Path) : List (Name × Node) → List Branch
  | [] => []
  | (name, node) :: rest =>
    branch w config root (path.join name) name node :: branches w config root path rest

end

/-- Everything below `root`. A root that is no directory gives nothing, one that cannot be looked at
gives only that. The root's own name is not held against the rules. -/
def walk (w : World) (config : Config) (root : Path) : List Visit :=
  match w.inspect root with
  | .error cause => [.unlisted root cause]
  | .ok (_, .directory entries) => Branch.visitAll config.order (branches w config root root entries)
  | .ok (_, .link _) =>
    match w.follow root with
    | .error cause => [.unlisted root cause]
    | .ok (_, node) => Branch.visitAll config.order (branches w config root root node.entries)
  | .ok (_, _) => []

end World

end SourceBundle
