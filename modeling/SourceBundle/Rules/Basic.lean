import SourceBundle.Rules.Extension

/-!
Which files are collected. A file is selected by its extension or by its whole name; a directory is
left out, with all below it, by its name. Rules are sets: order and repetition of their members do not
matter, and `==` compares them so.
-/

namespace SourceBundle

/-- Whether two lists have the same members. -/
def sameMembers (a b : List String) : Bool := a.all b.contains && b.all a.contains

/-- What selects a file: an extension with its dot, or a whole name. -/
structure Inclusion where
  extensions : List String
  filenames : List String

/-- What leaves a directory out: its name, at any depth. -/
structure Exclusion where
  directories : List String

/-- The rules of a collection. -/
structure Rules where
  inclusion : Inclusion
  exclusion : Exclusion

/-- Rules of inclusion are equal when both sets are. -/
instance : BEq Inclusion where
  beq a b := sameMembers a.extensions b.extensions && sameMembers a.filenames b.filenames

/-- Rules of exclusion are equal when their sets are. -/
instance : BEq Exclusion where
  beq a b := sameMembers a.directories b.directories

/-- Rules are equal when both parts are. -/
instance : BEq Rules where
  beq a b := a.inclusion == b.inclusion && a.exclusion == b.exclusion

/-- Whether the file name is selected. -/
def Inclusion.selects (rules : Inclusion) (name : String) : Bool :=
  rules.extensions.contains (extensionOf name) || rules.filenames.contains name

/-- Whether a directory of that name is left out. -/
def Exclusion.excludes (rules : Exclusion) (name : String) : Bool := rules.directories.contains name

/-- The rules in force when none are given: sources, headers and build files of a C project. -/
def Rules.builtin : Rules where
  inclusion :=
    { extensions := [".c", ".S", ".h", ".ld", ".s", ".mk"]
      filenames := ["Makefile", ".clang-format", "limine.conf", "Sbuild"] }
  exclusion :=
    { directories :=
        [".git", "limine", "build-test", "__pycache__", "node_modules", "target", "build"] }

/-- The order in which the listing of a directory is taken. -/
inductive Order where
  /-- As the disk lists it. -/
  | discovery
  /-- By the bytes of the names. -/
  | sorted
  deriving DecidableEq, Repr

/-- What a collection is asked to do. -/
structure Config where
  rules : Rules
  order : Order

/-- Configurations are equal when rules and order are. -/
instance : BEq Config where
  beq a b := a.rules == b.rules && a.order == b.order

/-- The given rules, in the order of discovery. -/
def Config.ofRules (rules : Rules) : Config := ⟨rules, .discovery⟩

/-- The built-in rules, in the order of discovery. -/
def Config.builtin : Config := .ofRules .builtin

end SourceBundle
