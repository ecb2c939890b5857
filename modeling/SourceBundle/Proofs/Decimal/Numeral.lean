import Mathlib.Algebra.Order.Field.Rat
import Mathlib.Data.List.TakeWhile
import Mathlib.Tactic.FieldSimp
import Mathlib.Tactic.Ring
import SourceBundle.Decimal.Shortest

/-!
Decimals as they are read. A decimal is digits, or digits, a point and more digits; it has neither sign
nor exponent, and the number that it spells is a fraction of a power of ten. What is printed as a
decimal is read back as the number that it was printed for.
-/

namespace SourceBundle.Decimal

/-- The number that digits spell. -/
def number (digits : List Char) : Nat := Nat.ofDigitChars 10 digits 0

/-- Digits and nothing else, and at least one of them. -/
structure Digits (text : List Char) : Prop where
  ne_nil : text ≠ []
  all : ∀ c ∈ text, c.isDigit = true

instance (text : List Char) : Decidable (Digits text) :=
  decidable_of_iff (text.isEmpty = false ∧ text.all Char.isDigit = true)
    ⟨fun ⟨hsome, hall⟩ => ⟨List.isEmpty_eq_false_iff.1 hsome, List.all_eq_true.1 hall⟩,
      fun ⟨hsome, hall⟩ => ⟨List.isEmpty_eq_false_iff.2 hsome, List.all_eq_true.2 hall⟩⟩

/-- The number that a text spells, if it is a decimal. -/
def read? (text : String) : Option ℚ :=
  let whole := text.toList.takeWhile Char.isDigit
  match text.toList.dropWhile Char.isDigit with
  | [] => if Digits whole then some (number whole) else none
  | point :: fraction =>
    if Digits whole ∧ point = '.' ∧ Digits fraction then
      some (number whole + number fraction / 10 ^ fraction.length)
    else none

theorem digits_toDigits (n : Nat) : Digits (Nat.toDigits 10 n) :=
  ⟨Nat.toDigits_ne_nil, fun _ h => Nat.isDigit_of_mem_toDigits (by decide) (by decide) h⟩

theorem number_toDigits (n : Nat) : number (Nat.toDigits 10 n) = n :=
  Nat.ofDigitChars_ten_toDigits

theorem toList_toString (n : Nat) : (toString n).toList = Nat.toDigits 10 n := by
  rw [Nat.toString_eq_repr, Nat.toList_repr]

/-- Digits are cut off where the first other character stands. -/
theorem takeWhile_digits {digits : List Char} (h : Digits digits) (rest : List Char)
    (hrest : ∀ c, rest.head? = some c → c.isDigit = false) :
    (digits ++ rest).takeWhile Char.isDigit = digits ∧
      (digits ++ rest).dropWhile Char.isDigit = rest := by
  rw [List.takeWhile_append_of_pos h.all, List.dropWhile_append_of_pos h.all]
  cases rest with
  | nil => simp
  | cons c rest => simp [hrest c rfl]

/-- Digits are read as the number that they spell. -/
theorem read?_digits {text : String} (h : Digits text.toList) :
    read? text = some (number text.toList : ℚ) := by
  obtain ⟨htake, hdrop⟩ := takeWhile_digits h [] (by simp)
  rw [List.append_nil] at htake hdrop
  rw [read?, htake, hdrop]
  exact if_pos h

/-- Digits with a point among them are read as a fraction. -/
theorem read?_point {text : String} {whole fraction : List Char} (h : Digits whole)
    (hfraction : Digits fraction) (htext : text.toList = whole ++ '.' :: fraction) :
    read? text = some (number whole + number fraction / 10 ^ fraction.length : ℚ) := by
  have hpoint : ∀ c, ('.' :: fraction).head? = some c → c.isDigit = false := by
    rintro c ⟨rfl⟩
    rfl
  obtain ⟨htake, hdrop⟩ := takeWhile_digits h ('.' :: fraction) hpoint
  rw [read?, htext, htake, hdrop]
  exact if_pos ⟨h, rfl, hfraction⟩

/-- Numbers are read back. -/
theorem read?_toString (n : Nat) : read? (toString n) = some (n : ℚ) := by
  have hdigits : Digits (toString n).toList := by
    rw [toList_toString]
    exact digits_toDigits n
  rw [read?_digits hdigits, toList_toString, number_toDigits]

/-- A decimal has no other characters than digits and the point. -/
theorem isDigit_or_point {text : String} {d : ℚ} (h : read? text = some d) {c : Char}
    (hc : c ∈ text.toList) : c.isDigit = true ∨ c = '.' := by
  rw [← List.takeWhile_append_dropWhile (p := Char.isDigit) (l := text.toList)] at hc
  unfold read? at h
  dsimp only at h
  rcases List.mem_append.1 hc with hwhole | hrest
  · exact .inl (List.mem_takeWhile_imp hwhole)
  · split at h
    · next hnone =>
      rw [hnone] at hrest
      cases hrest
    · next point fraction hsome =>
      split at h
      · next hshape =>
        rw [hsome] at hrest
        rcases List.mem_cons.1 hrest with rfl | hfraction
        · exact .inr hshape.2.1
        · exact .inl (hshape.2.2.all c hfraction)
      · cases h

theorem toList_pushn (c : Char) (n : Nat) : ("".pushn c n).toList = List.replicate n c := by
  induction n with
  | zero => rfl
  | succ n ih =>
    rw [String.pushn_eq_repeat_push] at ih ⊢
    rw [Nat.repeat, String.toList_push, ih, List.replicate_succ']

/-- The digits of a number, filled up with zeros from the left. -/
theorem padded_digits {n places : Nat} (hplaces : places ≠ 0) (hn : n < 10 ^ places) :
    let padded := List.replicate (places - (Nat.toDigits 10 n).length) '0' ++ Nat.toDigits 10 n
    Digits padded ∧ padded.length = places ∧ number padded = n := by
  have hlength : (Nat.toDigits 10 n).length ≤ places :=
    (Nat.length_toDigits_le_iff (by decide) (Nat.pos_of_ne_zero hplaces)).2 hn
  refine ⟨⟨by simp [Nat.toDigits_ne_nil], ?_⟩, by simp; omega, ?_⟩
  · intro c hc
    rcases List.mem_append.1 hc with hzero | hdigit
    · rw [List.eq_of_mem_replicate hzero]
      rfl
    · exact (digits_toDigits n).all c hdigit
  · rw [number, Nat.ofDigitChars_append, Nat.ofDigitChars_replicate_zero, Nat.mul_zero]
    exact number_toDigits n

/-- What is printed with a point is read back. -/
theorem read?_pointed (places digits : Nat) :
    read? (pointed places digits) = some (digits / 10 ^ places : ℚ) := by
  unfold pointed
  split
  · next hzero =>
    rw [read?_toString, hzero]
    simp
  · next hplaces =>
    have hten : tenTo places = 10 ^ places := rfl
    obtain ⟨hdigits, hlength, hnumber⟩ :=
      padded_digits hplaces (Nat.mod_lt digits (Nat.pow_pos (n := places) (by decide : 0 < 10)))
    rw [read?_point (digits_toDigits (digits / 10 ^ places)) hdigits ?_, hlength, hnumber,
      number_toDigits]
    · have hsplit : (digits : ℚ) = 10 ^ places * (digits / 10 ^ places : ℕ) +
          (digits % 10 ^ places : ℕ) := by
        exact_mod_cast (Nat.div_add_mod digits (10 ^ places)).symm
      rw [hsplit]
      congr 1
      field_simp
    · simp [hten, String.toList_append, toList_pushn, ← String.length_toList]

end SourceBundle.Decimal
