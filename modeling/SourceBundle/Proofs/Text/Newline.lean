import SourceBundle.Proofs.Text.Utf8
import SourceBundle.Text.Reading

/-!
What reading makes of a text. The two passes that fold line ends come to the same as one: each CR LF
is one line end, and so is a CR without LF. A text that was written is read back as itself with its
line ends folded, so one without CR comes back unchanged.
-/

namespace SourceBundle

namespace Newline

/-- Brings every line end to LF in one pass. -/
def unify : List Char → List Char
  | '\r' :: '\n' :: rest => '\n' :: unify rest
  | c :: rest => crToLf c :: unify rest
  | [] => []

theorem map_joinPairs (done text : List Char) :
    (joinPairs done text).map crToLf = done.reverse.map crToLf ++ unify text := by
  fun_induction joinPairs done text with
  | case1 done rest ih =>
    rw [ih, unify]
    simp [crToLf]
  | case2 done c rest hpair ih =>
    rw [ih, unify]
    · simp
    · exact hpair
  | case3 done => simp [unify]

/-- A text without CR has nothing to fold. -/
theorem unify_of_notMem {text : List Char} (h : '\r' ∉ text) : unify text = text := by
  fun_induction unify text with
  | case1 rest ih => simp at h
  | case2 c rest hpair ih =>
    rw [List.mem_cons, not_or] at h
    rw [ih h.2, crToLf, if_neg (Ne.symm h.1)]
  | case3 => rfl

/-- The two passes come to the same as the one. -/
theorem fold_eq_unify (text : List Char) : fold text = unify text := by
  unfold fold
  split
  · rw [map_joinPairs]
    rfl
  · next hnone => rw [unify_of_notMem (by simpa using hnone)]

example : fold "a\r\n\rb\r\r\nc".toList = "a\n\nb\n\nc".toList := by decide

end Newline

theorem Text.charsOfBytes_eq (bytes : Bytes) :
    charsOfBytes bytes = Newline.unify (Utf8.dropBroken bytes) := Newline.fold_eq_unify _

/-- A text that was written is read back with its line ends folded. -/
theorem Text.charsOfBytes_ofString (s : String) :
    charsOfBytes (Bytes.ofString s) = Newline.unify s.toList := by
  rw [charsOfBytes_eq, Utf8.dropBroken_ofString]

end SourceBundle
