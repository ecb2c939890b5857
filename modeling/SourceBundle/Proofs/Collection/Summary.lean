import Mathlib.Tactic.Positivity
import SourceBundle.Proofs.Collection.Reordered
import SourceBundle.Proofs.Decimal.Nearness

/-!
What a summary tells. The size of a collection is written in the largest unit that it fills, and what is
written lies so near to the size that no other whole number of bytes could have been meant. So below a
bound that no collection comes to, the summary tells the number of files and the size exactly.
-/

namespace SourceBundle

/-- The units above the byte, each 1024 times the one before. -/
def largeUnits : List String := ["KiB", "MiB", "GiB", "TiB", "PiB"]

/-- An amount and a unit that stand for so many bytes: below 1024 the bytes themselves, from there on a
decimal from one up to 1024, in the largest unit that is filled, that is off by less than half a byte. -/
inductive Measures (bytes : Nat) (amount : String) : String → Prop
  | whole (small : bytes < 1024) (reads : Decimal.read? amount = some (bytes : ℚ)) :
      Measures bytes amount "B"
  | part {unit : String} {k : Nat} {d : ℚ} (rank : 1 ≤ k) (unit_eq : largeUnits[k - 1]? = some unit)
      (filled : 1024 ^ k ≤ bytes) (next : bytes < 1024 ^ (k + 1))
      (reads : Decimal.read? amount = some d) (one_le : 1 ≤ d) (lt : d < 1024)
      (near : |d * 1024 ^ k - bytes| < 1 / 2) : Measures bytes amount unit

variable {bytes bytes' : Nat} {amount unit : String}

/-! ### The size in words -/

/-- The rank of a size is that of the largest unit that it fills. -/
theorem unitRank_spec (bound bytes : Nat) (h : bytes < 1024 ^ (bound + 1)) :
    bytes < 1024 ^ (unitRank bound bytes + 1) ∧
      (unitRank bound bytes ≠ 0 → 1024 ^ unitRank bound bytes ≤ bytes) := by
  induction bound generalizing bytes with
  | zero => exact ⟨h, fun hrank => absurd rfl hrank⟩
  | succ bound ih =>
    rw [unitRank]
    split
    · next hsmall => exact ⟨hsmall, fun hrank => absurd rfl hrank⟩
    · next hlarge =>
      have hpos : (0 : Nat) < 1024 := by decide
      obtain ⟨hnext, hfilled⟩ := ih (bytes / 1024) ((Nat.div_lt_iff_lt_mul hpos).2 h)
      refine ⟨(Nat.div_lt_iff_lt_mul hpos).1 hnext, fun _ => ?_⟩
      by_cases hrank : unitRank bound (bytes / 1024) = 0
      · rw [hrank]
        omega
      · exact (Nat.le_div_iff_mul_le hpos).1 (hfilled hrank)

/-- The decimal of a size in a unit that it fills. -/
theorem shortest_part {k : Nat} (hfilled : 1024 ^ k ≤ bytes) (hnext : bytes < 1024 ^ (k + 1))
    (hbound : bytes < 2 ^ 52) :
    ∃ d : ℚ, Decimal.read? (Decimal.shortest bytes (10 * k)) = some d ∧ 1 ≤ d ∧ d < 1024 ∧
      |d * 1024 ^ k - bytes| < 1 / 2 := by
  have hunit : (2 : Nat) ^ (10 * k) = 1024 ^ k := by rw [Nat.pow_mul]
  have hunit' : (2 : ℚ) ^ (10 * k) = 1024 ^ k := by exact_mod_cast congrArg (Nat.cast (R := ℚ)) hunit
  obtain ⟨places, digits, htext, hlow, hnear⟩ :=
    Decimal.shortest_near (hunit ▸ hfilled) (hbound.trans (by decide))
  have hpos : bytes ≠ 0 := Nat.ne_of_gt (Nat.lt_of_lt_of_le (Nat.pow_pos (by decide)) hfilled)
  have hlog : Nat.log2 bytes < 52 := (Nat.log2_lt hpos).2 hbound
  have hten : (0 : ℚ) < 10 ^ places := by positivity
  have hhalf : |(digits / 10 ^ places : ℚ) * 1024 ^ k - bytes| < 1 / 2 := by
    rw [hunit'] at hnear
    refine hnear.trans_lt ?_
    have hspare : (2 : ℚ) ≤ 2 ^ (52 - Nat.log2 bytes) := by
      have : 2 ^ 1 ≤ 2 ^ (52 - Nat.log2 bytes) := Nat.pow_le_pow_right (by decide) (by omega)
      exact_mod_cast this
    exact one_div_lt_one_div_of_lt (by norm_num) (by linarith)
  refine ⟨digits / 10 ^ places, by rw [htext, Decimal.read?_pointed], ?_, ?_, hhalf⟩
  · rw [one_le_div hten]
    exact_mod_cast hlow
  · have hlt : (digits / 10 ^ places : ℚ) * 1024 ^ k < 1024 * 1024 ^ k := by
      have habove : (bytes : ℚ) + 1 ≤ 1024 * 1024 ^ k := by
        rw [Nat.pow_succ, Nat.mul_comm] at hnext
        exact_mod_cast hnext
      have := (abs_lt.1 hhalf).2
      linarith
    exact lt_of_mul_lt_mul_right hlt (by positivity)

/-- A size below 2 ^ 52 is written as an amount of the unit that it fills. -/
theorem sizeText_measures (h : bytes < 2 ^ 52) :
    ∃ amount unit, sizeText bytes = amount ++ " " ++ unit ∧ Measures bytes amount unit := by
  obtain ⟨hnext, hfilled⟩ := unitRank_spec 8 bytes (h.trans (by decide))
  have hunits : binaryUnits.length - 1 = 8 := rfl
  rw [sizeText, hunits]
  generalize unitRank 8 bytes = rank at hnext hfilled
  refine ⟨_, _, rfl, ?_⟩
  by_cases hrank : rank = 0
  · subst hrank
    exact .whole hnext (Decimal.read?_toString bytes)
  · have hfilled := hfilled hrank
    have hsmall : rank < 6 := by
      by_contra hlarge
      have : 1024 ^ 6 ≤ 1024 ^ rank := Nat.pow_le_pow_right (by decide) (by omega)
      have : 2 ^ 52 < 1024 ^ 6 := by decide
      omega
    have hname : ∀ k, k < 6 → k ≠ 0 → largeUnits[k - 1]? = some (binaryUnits.getD k "") := by decide
    obtain ⟨d, hreads, hone, hlt, hnear⟩ := shortest_part hfilled hnext h
    rw [if_neg hrank]
    exact .part (Nat.pos_of_ne_zero hrank) (hname rank hsmall hrank) hfilled hnext hreads hone hlt hnear

/-! ### Two sizes in the same words -/

theorem Measures.reads (h : Measures bytes amount unit) : ∃ d, Decimal.read? amount = some d := by
  cases h with
  | whole _ reads => exact ⟨_, reads⟩
  | part _ _ _ _ reads => exact ⟨_, reads⟩

/-- Whole numbers that one decimal comes nearer to than by a half are the same. -/
theorem eq_of_near {a : ℚ} {n m : ℕ} (hn : |a - n| < 1 / 2) (hm : |a - m| < 1 / 2) : n = m := by
  obtain ⟨hn₁, hn₂⟩ := abs_lt.1 hn
  obtain ⟨hm₁, hm₂⟩ := abs_lt.1 hm
  have hle : (n : ℚ) < m + 1 := by linarith
  have hge : (m : ℚ) < n + 1 := by linarith
  have : n < m + 1 := by exact_mod_cast hle
  have : m < n + 1 := by exact_mod_cast hge
  omega

theorem largeUnits_ne_byte (k : Nat) : largeUnits[k]? ≠ some "B" := fun hk =>
  absurd (List.mem_of_getElem? hk) (by decide)

/-- A unit has one rank. -/
theorem largeUnits_inj {k k' : Nat} (hk : largeUnits[k]? = some unit)
    (hk' : largeUnits[k']? = some unit) : k = k' := by
  obtain ⟨hlt, -⟩ := List.getElem?_eq_some_iff.1 hk
  exact (List.getElem?_inj hlt (by decide)).1 (hk.trans hk'.symm)

/-- No two sizes are written alike. -/
theorem Measures.unique (h : Measures bytes amount unit) (h' : Measures bytes' amount unit) :
    bytes = bytes' := by
  cases h with
  | whole _ reads =>
    cases h' with
    | whole _ reads' => exact_mod_cast Option.some.inj (reads.symm.trans reads')
    | part _ unit_eq' => exact absurd unit_eq' (largeUnits_ne_byte _)
  | part rank unit_eq _ _ reads _ _ near =>
    cases h' with
    | whole => exact absurd unit_eq (largeUnits_ne_byte _)
    | part rank' unit_eq' _ _ reads' _ _ near' =>
      have hrank := largeUnits_inj unit_eq unit_eq'
      rw [Nat.sub_one_cancel rank rank' hrank, Option.some.inj (reads.symm.trans reads')] at near
      exact eq_of_near near near'

/-! ### The summary -/

/-- A text is cut in one way into digits and what begins with none. -/
theorem toString_append_inj {n m : Nat} {rest rest' : String}
    (hrest : ∀ c, rest.toList.head? = some c → c.isDigit = false)
    (hrest' : ∀ c, rest'.toList.head? = some c → c.isDigit = false)
    (h : toString n ++ rest = toString m ++ rest') : n = m ∧ rest = rest' := by
  have hlist := congrArg String.toList h
  rw [String.toList_append, String.toList_append, Decimal.toList_toString,
    Decimal.toList_toString] at hlist
  obtain ⟨htake, hdrop⟩ := Decimal.takeWhile_digits (Decimal.digits_toDigits n) _ hrest
  obtain ⟨htake', hdrop'⟩ := Decimal.takeWhile_digits (Decimal.digits_toDigits m) _ hrest'
  rw [hlist, htake'] at htake
  rw [hlist, hdrop'] at hdrop
  exact ⟨by rw [← Decimal.number_toDigits n, ← htake, Decimal.number_toDigits],
    String.toList_inj.1 hdrop.symm⟩

theorem Measures.amount_no_space (h : Measures bytes amount unit) : ' ' ∉ amount.toList := by
  obtain ⟨d, hreads⟩ := h.reads
  intro hspace
  rcases Decimal.isDigit_or_point hreads hspace with hdigit | hpoint
  · exact absurd hdigit (by decide)
  · exact absurd hpoint (by decide)

theorem Measures.unit_no_space (h : Measures bytes amount unit) : ' ' ∉ unit.toList := by
  cases h with
  | whole => decide
  | part _ unit_eq =>
    have hnames : ∀ name ∈ largeUnits, ' ' ∉ name.toList := by decide
    exact hnames unit (List.mem_of_getElem? unit_eq)

/-- What is written of two sizes is the same only where the sizes are. -/
theorem Measures.inj {amount' unit' : String} (h : Measures bytes amount unit)
    (h' : Measures bytes' amount' unit')
    (heq : amount ++ " " ++ unit = amount' ++ " " ++ unit') : bytes = bytes' := by
  have hlist : amount.toList ++ ' ' :: unit.toList = amount'.toList ++ ' ' :: unit'.toList := by
    simpa [String.toList_append] using congrArg String.toList heq
  obtain ⟨hamount, -, hunit⟩ :=
    (List.append_cons_inj_of_notMem h.amount_no_space h.unit_no_space).1 hlist
  rw [← String.toList_inj.1 hamount, ← String.toList_inj.1 hunit] at h'
  exact h.unique h'

namespace Collection

/-- The noun that follows the number of files. -/
def noun (count : Nat) : String := if count = 1 then " file, " else " files, "

theorem summary_eq (c : Collection) :
    c.summary = toString c.files.length ++ (noun c.files.length ++ sizeText c.totalBytes) := by
  rw [summary, noun, String.append_assoc]

/-- Equal summaries tell of as many files. -/
theorem length_of_summary {c c' : Collection} (h : c.summary = c'.summary) :
    c.files.length = c'.files.length ∧ sizeText c.totalBytes = sizeText c'.totalBytes := by
  have hnoun : ∀ (count : Nat) (size : String) (ch : Char),
      (noun count ++ size).toList.head? = some ch → ch.isDigit = false := by
    intro count size ch hch
    have hspace : (noun count ++ size).toList.head? = some ' ' := by
      unfold noun
      split <;> simp [String.toList_append]
    rw [← Option.some.inj (hspace.symm.trans hch)]
    rfl
  rw [summary_eq, summary_eq] at h
  obtain ⟨hcount, hrest⟩ := toString_append_inj (hnoun _ _) (hnoun _ _) h
  rw [hcount] at hrest
  exact ⟨hcount, String.append_right_inj _ |>.1 hrest⟩

/-- The summary of a collection below 2 ^ 52 bytes names the number of files and, as an amount of the
unit that it fills, the size; and it is the same for two such collections only where both are. -/
theorem summary_tells_count_and_size :
    (∀ c : Collection, c.totalBytes < 2 ^ 52 → ∃ amount unit,
      c.summary = toString c.files.length ++ (if c.files.length = 1 then " file, " else " files, ") ++
        (amount ++ " " ++ unit) ∧ Measures c.totalBytes amount unit) ∧
    ∀ c c' : Collection, c.totalBytes < 2 ^ 52 → c'.totalBytes < 2 ^ 52 →
      (c.summary = c'.summary ↔
        c.files.length = c'.files.length ∧ c.totalBytes = c'.totalBytes) := by
  refine ⟨fun c hc => ?_, fun c c' hc hc' => ⟨fun heq => ?_, fun ⟨hlength, hbytes⟩ => ?_⟩⟩
  · obtain ⟨amount, unit, htext, hmeasures⟩ := sizeText_measures hc
    exact ⟨amount, unit, by rw [summary, htext], hmeasures⟩
  · obtain ⟨hlength, hsize⟩ := length_of_summary heq
    obtain ⟨amount, unit, htext, hmeasures⟩ := sizeText_measures hc
    obtain ⟨amount', unit', htext', hmeasures'⟩ := sizeText_measures hc'
    exact ⟨hlength, hmeasures.inj hmeasures' (by rw [← htext, hsize, htext'])⟩
  · rw [summary, summary, hlength, hbytes]

/-- One file of so many letters. -/
def letters (n : Nat) : Collection :=
  ⟨[⟨.ofString "/p/a.txt", .ofString "a.txt", "text", "".pushn 'a' n⟩], []⟩

theorem totalBytes_letters (n : Nat) : (letters n).totalBytes = n := by
  have hsize : ("".pushn 'a' n).utf8ByteSize = n := by
    induction n with
    | zero => rfl
    | succ n ih =>
      rw [String.pushn_eq_repeat_push] at ih ⊢
      rw [Nat.repeat, String.utf8ByteSize_push, ih]
      rfl
  exact hsize

/-- One byte below the mebibyte is told from the mebibyte, and neither is written as 1024 of a unit. -/
theorem summary_tells_count_and_size_mebibyte :
    ((letters (1024 ^ 2 - 1)).totalBytes < 2 ^ 52 ∧ (letters (1024 ^ 2)).totalBytes < 2 ^ 52) ∧
      (∃ amount unit, (letters (1024 ^ 2 - 1)).summary = "1 file, " ++ (amount ++ " " ++ unit) ∧
        Measures (letters (1024 ^ 2 - 1)).totalBytes amount unit) ∧
      (letters (1024 ^ 2 - 1)).summary ≠ (letters (1024 ^ 2)).summary := by
  obtain ⟨htells, hinj⟩ := summary_tells_count_and_size
  have hbelow : (letters (1024 ^ 2 - 1)).totalBytes < 2 ^ 52 := by
    rw [totalBytes_letters]
    decide
  have hat : (letters (1024 ^ 2)).totalBytes < 2 ^ 52 := by
    rw [totalBytes_letters]
    decide
  refine ⟨⟨hbelow, hat⟩, htells _ hbelow, fun heq => ?_⟩
  have hbytes := ((hinj _ _ hbelow hat).1 heq).2
  rw [totalBytes_letters, totalBytes_letters] at hbytes
  exact absurd hbytes (by decide)

end Collection

end SourceBundle
