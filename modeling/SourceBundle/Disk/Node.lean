import SourceBundle.Path.Basic

/-!
What a disk holds: files, links, devices and directories, each directory with its entries in the order
in which it lists them. A place is told by the names that lead to it from the root. Two operations
change a disk: one puts a node under a name, the other takes a name away.
-/

namespace SourceBundle

/-- The name of an entry in a directory. -/
abbrev Name := Bytes

/-- Devices that stand among the files. -/
inductive Device where
  /-- Takes every byte and keeps none. -/
  | null
  /-- Refuses every byte, and gives bytes without end to a reader. -/
  | full
  deriving DecidableEq, Repr

/-- What an entry of a directory can be. -/
inductive Node where
  | file (content : Bytes)
  | link (target : Path)
  | device (kind : Device)
  | directory (entries : List (Name × Node))

/-- The entries of a directory, in the order of its listing. -/
abbrev Listing := List (Name × Node)

namespace Listing

/-- The node under a name. -/
def find? (entries : Listing) (name : Name) : Option Node := List.lookup name entries

/-- Puts a node under a name: in place of the one that is there, or else at the end. -/
def put (name : Name) (node : Node) : Listing → Listing
  | [] => [(name, node)]
  | entry :: rest =>
    if entry.1 = name then (name, node) :: rest else entry :: put name node rest

/-- Takes a name away. -/
def erase (name : Name) (entries : Listing) : Listing := entries.filter (·.1 ≠ name)

/-- After a put, the name leads to the node and every other name to what it led to before. -/
theorem find?_put (name other : Name) (node : Node) (entries : Listing) :
    find? (put name node entries) other =
      if other = name then some node else find? entries other := by
  induction entries with
  | nil => grind [put, find?]
  | cons entry rest ih => grind [put, find?]

end Listing

namespace Node

/-- Whether the node is a directory itself; a link to one is not. -/
def isDirectory : Node → Bool
  | .directory _ => true
  | _ => false

/-- What a directory lists; anything else lists nothing. -/
def entries : Node → Listing
  | .directory entries => entries
  | _ => []

/-- The node to which the names lead, going through directories only. -/
def at? : Node → List Name → Option Node
  | node, [] => some node
  | node, name :: rest => (Listing.find? node.entries name).bind (·.at? rest)

/-- Changes the listing of the directory to which the names lead. -/
def modify (change : Listing → Listing) : List Name → Node → Node
  | [], .directory entries => .directory (change entries)
  | name :: rest, .directory entries =>
    .directory (entries.map fun e => if e.1 = name then (e.1, modify change rest e.2) else e)
  | _, node => node

end Node

/-- A disk: the listing of its root. -/
structure Disk where
  entries : Listing

namespace Disk

/-- The root directory. -/
def root (d : Disk) : Node := .directory d.entries

/-- Changes the listing of the directory to which the names lead. -/
def modify (d : Disk) (change : Listing → Listing) (trail : List Name) : Disk :=
  ⟨(d.root.modify change trail).entries⟩

/-- Puts a node under a name in the directory to which the trail leads. -/
def put (d : Disk) (trail : List Name) (name : Name) (node : Node) : Disk :=
  d.modify (Listing.put name node) trail

/-- Takes a name away from the directory to which the trail leads. -/
def erase (d : Disk) (trail : List Name) (name : Name) : Disk :=
  d.modify (Listing.erase name) trail

end Disk

/-- A place on a disk: the names that lead to it from the root, or a directory that was taken away
while it was in use; such a one is empty, takes no entry, and still knows what was above it. -/
inductive Place where
  | named (trail : List Name)
  | removed (above : List Name)
  deriving DecidableEq, Repr

namespace Place

/-- The place of an entry. -/
def child (name : Name) : Place → Place
  | .named trail => .named (trail ++ [name])
  | .removed above => .removed above

/-- The place above; the root is above itself. -/
def parent : Place → Place
  | .named trail => .named trail.dropLast
  | .removed above => .named above

end Place

/-- Names are walked in two goes as in one. -/
theorem Node.at?_append (node : Node) (trail rest : List Name) :
    node.at? (trail ++ rest) = (node.at? trail).bind (·.at? rest) := by
  induction trail generalizing node with
  | nil => rfl
  | cons name trail ih =>
    simp only [List.cons_append, Node.at?]
    cases Listing.find? node.entries name with
    | none => rfl
    | some child => exact ih child

/-- What stands at a place. -/
def Disk.node? (d : Disk) : Place → Option Node
  | .named trail => d.root.at? trail
  | .removed _ => some (.directory [])

/-- What stands at the place of an entry is what the directory lists under its name. -/
theorem Disk.node?_child (d : Disk) (trail : List Name) (name : Name) :
    d.node? ((Place.named trail).child name) =
      (d.node? (.named trail)).bind fun node => Listing.find? node.entries name := by
  simp [Disk.node?, Place.child, Node.at?_append, Node.at?]

end SourceBundle
