/-!
Strings of bytes: what files hold and what the names of files are made of. Names are compared byte by
byte, so the order of a sorted listing does not hang on any alphabet.
-/

namespace SourceBundle

/-- A string of bytes. -/
abbrev Bytes := List UInt8

namespace Bytes

/-- The bytes that UTF-8 writes for a text. -/
def ofString (s : String) : Bytes := s.toList.flatMap String.utf8EncodeChar

/-- Byte order: the first difference decides, and a string comes before its extensions. -/
def le : Bytes → Bytes → Bool
  | [], _ => true
  | _ :: _, [] => false
  | a :: as, b :: bs => decide (a < b) || (a == b && le as bs)

/-- Byte order compares any two strings. -/
theorem le_total (a b : Bytes) : le a b = true ∨ le b a = true := by
  induction a generalizing b with
  | nil => exact .inl rfl
  | cons x xs ih =>
    cases b with
    | nil => exact .inr rfl
    | cons y ys =>
      simp only [le, Bool.or_eq_true, decide_eq_true_eq, Bool.and_eq_true, beq_iff_eq]
      by_cases h : x = y
      · exact (ih ys).imp (fun hs => .inr ⟨h, hs⟩) (fun hs => .inr ⟨h.symm, hs⟩)
      · rcases UInt8.lt_or_lt_of_ne h with h | h
        · exact .inl (.inl h)
        · exact .inr (.inl h)

/-- Byte order is transitive. -/
theorem le_trans {a b c : Bytes} (hab : le a b = true) (hbc : le b c = true) : le a c = true := by
  induction a generalizing b c with
  | nil => rfl
  | cons x xs ih =>
    cases b with
    | nil => cases hab
    | cons y ys =>
      cases c with
      | nil => cases hbc
      | cons z zs =>
        simp only [le, Bool.or_eq_true, decide_eq_true_eq, Bool.and_eq_true, beq_iff_eq] at *
        rcases hab with h | ⟨rfl, hs⟩
        · rcases hbc with h' | ⟨rfl, _⟩
          · exact .inl (UInt8.lt_trans h h')
          · exact .inl h
        · rcases hbc with h' | ⟨rfl, hs'⟩
          · exact .inl h'
          · exact .inr ⟨rfl, ih hs hs'⟩

/-- Two strings that come before each other are the same. -/
theorem le_antisymm {a b : Bytes} (hab : le a b = true) (hba : le b a = true) : a = b := by
  induction a generalizing b with
  | nil =>
    cases b with
    | nil => rfl
    | cons y ys => cases hba
  | cons x xs ih =>
    cases b with
    | nil => cases hab
    | cons y ys =>
      simp only [le, Bool.or_eq_true, decide_eq_true_eq, Bool.and_eq_true, beq_iff_eq] at *
      rcases hab with h | ⟨rfl, hs⟩
      · rcases hba with h' | ⟨rfl, _⟩
        · exact absurd (UInt8.lt_trans h h') (UInt8.lt_irrefl x)
        · exact absurd h (UInt8.lt_irrefl _)
      · rcases hba with h' | ⟨_, hs'⟩
        · exact absurd h' (UInt8.lt_irrefl x)
        · rw [ih hs hs']

/-- The byte that separates the names of a path. -/
def slash : UInt8 := 0x2F

/-- The name by which a directory refers to itself. -/
def dot : Bytes := [0x2E]

/-- The name by which a directory refers to the one above it. -/
def dotDot : Bytes := [0x2E, 0x2E]

end Bytes

end SourceBundle
