import SourceBundle.Text.Utf8
import SourceBundle.Text.Newline

/-!
The text of a file. Reading never fails: bytes that form no character are left out and every line end
becomes LF, so a file in a broken encoding still gives whatever text it holds.
-/

namespace SourceBundle.Text

/-- The characters that a file's bytes give. -/
def charsOfBytes (bytes : Bytes) : List Char := Newline.fold (Utf8.dropBroken bytes)

/-- The text that a file's bytes give. -/
def ofBytes (bytes : Bytes) : String := String.ofList (charsOfBytes bytes)

end SourceBundle.Text
