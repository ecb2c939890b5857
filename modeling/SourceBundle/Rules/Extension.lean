/-!
Extensions of file names. The base of a name is its last segment that is neither empty nor a single
dot; its extension runs from the last dot that is not its first character to its end. So a hidden file
has no extension of its own, and a name that ends in a dot has the extension ".".
-/

namespace SourceBundle

/-- The last segment that names something, if there is one. -/
def baseName? (name : List Char) : Option (List Char) :=
  ((name.splitOn '/').filter fun s => s ≠ [] ∧ s ≠ ['.']).getLast?

/-- From the last dot on, or nothing without a dot. -/
def fromLastDot (text : List Char) : List Char :=
  if text.contains '.' then '.' :: (text.reverse.takeWhile (· ≠ '.')).reverse else []

/-- The extension of a base name; the first character never begins one. -/
def suffixOf (base : List Char) : List Char :=
  if base = ['.', '.'] then [] else fromLastDot base.tail

/-- A name's extension with its dot, or the empty text when it has none. -/
def extensionOf (name : String) : String :=
  match baseName? name.toList with
  | none => ""
  | some base => String.ofList (suffixOf base)

/-- The tag of a file's code block: its extension without the dot. -/
def languageTag (name : String) : String := String.ofList (extensionOf name).toList.tail

end SourceBundle
