/-!
Colours. A style is a run of escape sequences before a text, and one more sequence after it ends them
all.
-/

namespace SourceBundle.Terminal

/-- The sequence that ends every style. -/
def reset : String := "\x1b[0m"

/-- The sequences that begin a style, given by their numbers. -/
def style (codes : List String) : String := String.join (codes.map fun code => "\x1b[" ++ code ++ "m")

/-- A text in a style. -/
def paint (colours : Bool) (codes : List String) (text : String) : String :=
  if colours then style codes ++ text ++ reset else text

/-- A text in a style that goes on to its end: after each reset in the text the style begins anew. -/
def paintThrough (colours : Bool) (codes : List String) (text : String) : String :=
  if colours then
    style codes ++ (reset ++ style codes).intercalate (text.splitOn reset) ++ reset
  else text

end SourceBundle.Terminal
