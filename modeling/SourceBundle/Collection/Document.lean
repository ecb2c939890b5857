import SourceBundle.Path.Basic

/-!
The document. Each collected file gives one block: a line that names it, an opening fence with its
language tag, its content, a closing fence. Blocks stand in the order of the files, one empty line
between two of them; no file at all gives the empty document.
-/

namespace SourceBundle

/-- A file that was collected. -/
structure Entry where
  /-- The path by which the file was reached. -/
  path : Path
  /-- Its path as seen from the root of the collection. -/
  relativePath : Path
  /-- The tag of its block. -/
  lang : String
  /-- Its text. -/
  content : String
  deriving DecidableEq, Repr

namespace Entry

/-- The block of a file. -/
def block (e : Entry) : String :=
  "Here is " ++ e.relativePath.shown ++ ":\n```" ++ e.lang ++ "\n" ++ e.content ++ "\n```\n"

end Entry

/-- The document of the files, in the given order. -/
def document (files : List Entry) : String := "\n".intercalate (files.map Entry.block)

end SourceBundle
