import SourceBundle.Collection.Basic
import SourceBundle.Decimal.Shortest

/-!
The size of a collection in words: how many files, and how much text in the largest binary unit that
it fills.
-/

namespace SourceBundle

/-- Binary units, each 1024 times the one before. -/
def binaryUnits : List String := ["B", "KiB", "MiB", "GiB", "TiB", "PiB", "EiB", "ZiB", "YiB"]

/-- How many times 1024 divides into a size, up to a bound. -/
def unitRank : Nat → Nat → Nat
  | 0, _ => 0
  | bound + 1, bytes => if bytes < 1024 then 0 else unitRank bound (bytes / 1024) + 1

/-- A size in the largest unit that it fills. -/
def sizeText (bytes : Nat) : String :=
  let rank := unitRank (binaryUnits.length - 1) bytes
  let amount := if rank = 0 then toString bytes else Decimal.shortest bytes (10 * rank)
  amount ++ " " ++ binaryUnits.getD rank ""

/-- The number of files and the size of their texts. -/
def Collection.summary (c : Collection) : String :=
  let count := c.files.length
  toString count ++ (if count = 1 then " file, " else " files, ") ++ sizeText c.totalBytes

end SourceBundle
