import SourceBundle.Text.Utf8

/-!
Paths as the user writes them: bytes in which slashes separate names. A path is kept byte for byte;
what it leads to is for the disk to say. Here stand the purely textual operations: joining a name,
the path above, and the text under which a path is shown.
-/

namespace SourceBundle

/-- A path, byte for byte as it was written. -/
structure Path where
  bytes : Bytes
  deriving DecidableEq, Repr

namespace Path

/-- The path that a text spells. -/
def ofString (s : String) : Path := ⟨Bytes.ofString s⟩

/-- The text under which a path is shown, U+FFFD standing for what is not UTF-8. -/
def shown (p : Path) : String := Utf8.replaceBroken p.bytes

/-- Whether the path has no bytes at all. -/
def isEmpty (p : Path) : Bool := p.bytes.isEmpty

/-- Whether the path starts from the root of the disk. -/
def isAbsolute (p : Path) : Bool := p.bytes.head? == some Bytes.slash

/-- Whether the path ends with a slash. -/
def endsInSlash (p : Path) : Bool := p.bytes.getLast? == some Bytes.slash

/-- What stands between the slashes, empty stretches included. -/
def segments (p : Path) : List Bytes := p.bytes.splitOn Bytes.slash

/-- The names to walk through, one after the other; doubled slashes count once. -/
def steps (p : Path) : List Bytes := p.segments.filter (!·.isEmpty)

/-- The path of the entry `name` in the directory `p`. -/
def join (p : Path) (name : Bytes) : Path :=
  if p.isEmpty || p.endsInSlash then ⟨p.bytes ++ name⟩ else ⟨p.bytes ++ Bytes.slash :: name⟩

/-- Names joined by slashes. -/
def ofNames (names : List Bytes) : Path := names.foldl join ⟨[]⟩

/-- The absolute path that leads through the names: a slash before each, and one alone for the root. -/
def ofTrail : List Bytes → Path
  | [] => ⟨[Bytes.slash]⟩
  | name :: rest => ⟨(name :: rest).flatMap (Bytes.slash :: ·)⟩

/-- Drops slashes and single dots that end a path, read backwards; a slash that is the root stays. -/
def trimEnd : Bytes → Bytes
  | 0x2F :: rest => if rest.isEmpty then [Bytes.slash] else trimEnd rest
  | 0x2E :: 0x2F :: rest => if rest.isEmpty then [Bytes.slash] else trimEnd rest
  | bytes => bytes

/-- The path without its last name. The root and the empty path have none. -/
def parent? (p : Path) : Option Path :=
  let back := trimEnd p.bytes.reverse
  if back = [] ∨ back = [Bytes.slash] then none
  else some ⟨(trimEnd (back.dropWhile (· != Bytes.slash))).reverse⟩

/-- A path and the `n` paths above it, or as many as there are. -/
def climb : Nat → Path → List Path
  | 0, p => [p]
  | n + 1, p =>
    match p.parent? with
    | none => [p]
    | some above => p :: climb n above

/-- The path and all the paths above it, from the inside out. -/
def ancestors (p : Path) : List Path := climb p.bytes.length p

/-- A path is the innermost of its ancestors. -/
theorem head?_ancestors (p : Path) : p.ancestors.head? = some p := by
  unfold ancestors
  cases p.bytes.length with
  | zero => rfl
  | succ n => rw [climb]; split <;> rfl

end Path

end SourceBundle
