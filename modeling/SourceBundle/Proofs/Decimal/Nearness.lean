import Mathlib.Algebra.Order.Field.Basic
import Mathlib.Tactic.Linarith
import SourceBundle.Proofs.Decimal.Numeral

/-!
How near shortest decimals are. Every decimal that the search can end with reads back as the number, so
it is off by half a unit of the last of 53 significant bits at most, and it is not cut below a whole
number that the number reaches. The search never gives up: with seventeen places the decimals lie closer
to each other than the numbers that are held in binary.
-/

namespace SourceBundle.Decimal

variable {i : Interval} {places digits n k : Nat}

namespace Interval

/-- The greatest decimal with so many places that is not above the number. -/
def floor (i : Interval) (places : Nat) : Nat := i.value * 10 ^ places / i.unit

/-- A decimal that reads back lies between the ends of the interval. -/
theorem bounds_of_holds (h : i.holds places digits = true) :
    (i.value - i.below) * 10 ^ places ≤ digits * i.unit ∧
      digits * i.unit ≤ (i.value + i.above) * 10 ^ places := by
  have hten : tenTo places = 10 ^ places := rfl
  unfold holds at h
  dsimp only at h
  rw [hten] at h
  split at h
  · simpa using h
  · have hstrict : (i.value - i.below) * 10 ^ places < digits * i.unit ∧
        digits * i.unit < (i.value + i.above) * 10 ^ places := by simpa using h
    exact ⟨hstrict.1.le, hstrict.2.le⟩

theorem holds_of_between (hlow : (i.value - i.below) * 10 ^ places < digits * i.unit)
    (hhigh : digits * i.unit < (i.value + i.above) * 10 ^ places) :
    i.holds places digits = true := by
  have hten : tenTo places = 10 ^ places := rfl
  unfold holds
  dsimp only
  rw [hten]
  split
  · simp [hlow.le, hhigh.le]
  · simp [hlow, hhigh]

/-- Where decimals lie closer to each other than the end of the interval to the number, the one below
reads back. -/
theorem holds_floor (hunit : 0 < i.unit) (hbelow : i.below ≤ i.value) (habove : 0 < i.above)
    (hclose : i.unit ≤ i.below * 10 ^ places) : i.holds places (i.floor places) = true := by
  have hsplit := Nat.div_add_mod (i.value * 10 ^ places) i.unit
  have hrest := Nat.mod_lt (i.value * 10 ^ places) hunit
  have hten : 0 < 10 ^ places := Nat.pow_pos (by decide)
  have hlow : (i.value - i.below) * 10 ^ places = i.value * 10 ^ places - i.below * 10 ^ places :=
    Nat.sub_mul _ _ _
  have hhigh : (i.value + i.above) * 10 ^ places =
      i.value * 10 ^ places + i.above * 10 ^ places := Nat.add_mul _ _ _
  have hends : i.below * 10 ^ places ≤ i.value * 10 ^ places := Nat.mul_le_mul_right _ hbelow
  have hroom : 0 < i.above * 10 ^ places := Nat.mul_pos habove hten
  have hpoint : i.floor places * i.unit = i.unit * (i.value * 10 ^ places / i.unit) :=
    Nat.mul_comm _ _
  refine holds_of_between ?_ ?_
  · rw [hlow, hpoint]
    omega
  · rw [hhigh, hpoint]
    omega

/-- The nearest decimal reads back and is not below the one that is cut. -/
theorem nearest?_eq_some (h : i.nearest? places = some digits) :
    i.holds places digits = true ∧ i.floor places ≤ digits := by
  unfold nearest? at h
  dsimp only at h
  split at h
  · next hupper =>
    obtain ⟨rfl⟩ := h
    rw [Bool.and_eq_true] at hupper
    exact ⟨hupper.1, Nat.le_succ _⟩
  · split at h
    · next hlower =>
      obtain ⟨rfl⟩ := h
      exact ⟨hlower, Nat.le_refl _⟩
    · cases h

/-- What the search ends with reads back, as long as the last decimal that it can come to does. -/
theorem search_spec (i : Interval) (bound places : Nat)
    (hlast : i.holds (places + bound) (i.floor (places + bound)) = true) :
    i.holds (i.search bound places).1 (i.search bound places).2 = true ∧
      i.floor (i.search bound places).1 ≤ (i.search bound places).2 := by
  induction bound generalizing places with
  | zero => exact ⟨hlast, Nat.le_refl _⟩
  | succ bound ih =>
    rw [search]
    cases hnearest : i.nearest? places with
    | some digits => exact nearest?_eq_some hnearest
    | none =>
      refine ih (places + 1) ?_
      rwa [Nat.add_right_comm, Nat.add_assoc]

end Interval

/-- The interval around a number that is held with 53 bits, in powers of two. -/
theorem around_eq (n k : Nat) :
    (Interval.around n k).unit = 4 * 2 ^ (52 - Nat.log2 n) * 2 ^ k ∧
      (Interval.around n k).value = 4 * 2 ^ (52 - Nat.log2 n) * n ∧
      1 ≤ (Interval.around n k).below ∧ (Interval.around n k).below ≤ 2 ∧
      (Interval.around n k).above = 2 := by
  have hunit : (Interval.around n k).unit = 2 ^ (k + (52 - Nat.log2 n) + 2) := rfl
  have hvalue : (Interval.around n k).value = n * 2 ^ (52 - Nat.log2 n) * 4 := rfl
  refine ⟨?_, ?_, ?_, ?_, rfl⟩
  · rw [hunit, Nat.pow_add, Nat.pow_add]
    ring
  · rw [hvalue]
    ring
  · unfold Interval.around
    dsimp only
    split <;> decide
  · unfold Interval.around
    dsimp only
    split <;> decide

/-- Seventeen places are enough for a number from one on. -/
theorem holds_around (hlow : 2 ^ k ≤ n) (hhigh : n < 2 ^ 53) :
    (Interval.around n k).holds 17 ((Interval.around n k).floor 17) = true := by
  obtain ⟨hunit, hvalue, hbelow, hbelow', habove⟩ := around_eq n k
  have hpos : n ≠ 0 := Nat.ne_of_gt (Nat.lt_of_lt_of_le (Nat.pow_pos (by decide)) hlow)
  have hlog : k ≤ Nat.log2 n := (Nat.le_log2 hpos).2 hlow
  have hlog' : Nat.log2 n < 53 := (Nat.log2_lt hpos).2 hhigh
  refine Interval.holds_floor ?_ ?_ ?_ ?_
  · rw [hunit]
    positivity
  · have hone : 1 ≤ 2 ^ (52 - Nat.log2 n) * n :=
      Nat.mul_pos (Nat.pow_pos (by decide)) (Nat.pos_of_ne_zero hpos)
    rw [hvalue, Nat.mul_assoc]
    omega
  · rw [habove]
    decide
  · calc (Interval.around n k).unit = 2 ^ (2 + (52 - Nat.log2 n) + k) := by
          rw [hunit, Nat.pow_add, Nat.pow_add]
      _ ≤ 2 ^ 54 := Nat.pow_le_pow_right (by decide) (by omega)
      _ ≤ 1 * 10 ^ 17 := by decide
      _ ≤ (Interval.around n k).below * 10 ^ 17 := Nat.mul_le_mul_right _ hbelow

/-- The decimal that is cut is not below one when the number is not. -/
theorem le_floor_around (hlow : 2 ^ k ≤ n) (places : Nat) :
    10 ^ places ≤ (Interval.around n k).floor places := by
  obtain ⟨hunit, hvalue, -⟩ := around_eq n k
  have hpos : 0 < (Interval.around n k).unit := by
    rw [hunit]
    positivity
  rw [Interval.floor, Nat.le_div_iff_mul_le hpos, Nat.mul_comm]
  refine Nat.mul_le_mul_right _ ?_
  rw [hunit, hvalue]
  exact Nat.mul_le_mul_left _ hlow

/-- A decimal that reads back is off by half a unit of the last bit at most. -/
theorem near_of_holds (h : (Interval.around n k).holds places digits = true) :
    |(digits / 10 ^ places : ℚ) * 2 ^ k - n| ≤ 1 / (2 * 2 ^ (52 - Nat.log2 n)) := by
  obtain ⟨hunit, hvalue, -, hbelow, habove⟩ := around_eq n k
  obtain ⟨hlow, hhigh⟩ := Interval.bounds_of_holds h
  have hlow' : (Interval.around n k).value * 10 ^ places ≤
      digits * (Interval.around n k).unit + 2 * 10 ^ places := by
    have hcut : (Interval.around n k).value - 2 ≤
        (Interval.around n k).value - (Interval.around n k).below := by omega
    have := Nat.mul_le_mul_right (10 ^ places) hcut
    rw [Nat.sub_mul] at this
    omega
  rw [habove, Nat.add_mul] at hhigh
  rw [hunit, hvalue] at hlow' hhigh
  generalize 52 - Nat.log2 n = spare at hlow' hhigh
  have hten : (0 : ℚ) < 10 ^ places := by positivity
  have hspare : (0 : ℚ) < 2 ^ spare := by positivity
  have hlow'' : 4 * 2 ^ spare * n * 10 ^ places ≤
      (digits * (4 * 2 ^ spare * 2 ^ k) + 2 * 10 ^ places : ℚ) := by exact_mod_cast hlow'
  have hhigh' : (digits * (4 * 2 ^ spare * 2 ^ k) : ℚ) ≤
      4 * 2 ^ spare * n * 10 ^ places + 2 * 10 ^ places := by exact_mod_cast hhigh
  have hoff : (digits / 10 ^ places : ℚ) * 2 ^ k - n =
      (digits * 2 ^ k - n * 10 ^ places) / 10 ^ places := by field_simp
  have htwice : (0 : ℚ) < 2 * 2 ^ spare := by positivity
  rw [hoff, abs_div, abs_of_pos hten, div_le_div_iff₀ hten htwice, one_mul, ← abs_of_pos htwice,
    ← abs_mul, abs_le]
  constructor <;> linarith

/-- The shortest decimal of `n / 2 ^ k`, a number from one on: it is not below one, and it is off by
half a unit of the last bit at most. -/
theorem shortest_near (hlow : 2 ^ k ≤ n) (hhigh : n < 2 ^ 53) :
    ∃ places digits, shortest n k = pointed places digits ∧ 10 ^ places ≤ digits ∧
      |(digits / 10 ^ places : ℚ) * 2 ^ k - n| ≤ 1 / (2 * 2 ^ (52 - Nat.log2 n)) := by
  obtain ⟨hholds, hfloor⟩ := Interval.search_spec (Interval.around n k) 17 0 (holds_around hlow hhigh)
  exact ⟨_, _, rfl, (le_floor_around hlow _).trans hfloor, near_of_holds hholds⟩

end SourceBundle.Decimal
