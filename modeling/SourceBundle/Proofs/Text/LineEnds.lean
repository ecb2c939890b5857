import SourceBundle.Proofs.Text.Seams

/-!
Line ends read one character at a time. A reader goes through a text once, from left to right, and
remembers only whether it has just passed a CR: a CR ends a line at once, and an LF right after it
belongs to the same line end. It gives what the two passes give, although the first of them puts
characters side by side that were apart. So each line end of the result is a CR of the text or an LF with
no CR right before it, and the other characters stand in their order.
-/

namespace SourceBundle

namespace Newline

variable {text : List Char} {i : Nat}

/-! ### The reader -/

/-- What the reader emits for a character; `afterCr` tells whether the one before it is CR. -/
def emit (afterCr : Bool) (c : Char) : List Char :=
  if c = '\r' then ['\n'] else if c = '\n' ∧ afterCr then [] else [c]

/-- Where the reader stands between two characters. -/
structure Reader where
  /-- Whether it has just passed a CR. -/
  afterCr : Bool
  /-- What it has emitted. -/
  emitted : List Char
  deriving DecidableEq, Repr

/-- Passes one character. -/
def Reader.pass (r : Reader) (c : Char) : Reader := ⟨c == '\r', r.emitted ++ emit r.afterCr c⟩

/-- What the reader emits for a whole text. -/
def onePass (text : List Char) : List Char := (text.foldl Reader.pass ⟨false, []⟩).emitted

/-! ### Positions of a text -/

/-- Whether a CR stands right before position `i`. -/
def followsCr (text : List Char) : Nat → Bool
  | 0 => false
  | i + 1 => text[i]? == some '\r'

/-- What is emitted for position `i`. -/
def emittedAt (text : List Char) (i : Nat) : List Char :=
  text[i]?.elim [] (emit (followsCr text i))

/-- Whether an LF with no CR right before it stands at position `i`. -/
def isLoneLf (text : List Char) (i : Nat) : Bool := text[i]? == some '\n' && !followsCr text i

theorem followsCr_length : followsCr text text.length = true ↔ text.getLast? = some '\r' := by
  rw [List.getLast?_eq_getElem?]
  cases text <;> simp [followsCr]

/-! A character at the end changes nothing about the positions before it. -/

theorem followsCr_concat (c : Char) (h : i ≤ text.length) :
    followsCr (text ++ [c]) i = followsCr text i := by
  cases i with
  | zero => rfl
  | succ i => rw [followsCr, followsCr, List.getElem?_append_left h]

theorem emittedAt_concat (c : Char) (h : i < text.length) :
    emittedAt (text ++ [c]) i = emittedAt text i := by
  rw [emittedAt, emittedAt, List.getElem?_append_left h, followsCr_concat c h.le]

theorem isLoneLf_concat (c : Char) (h : i < text.length) :
    isLoneLf (text ++ [c]) i = isLoneLf text i := by
  rw [isLoneLf, isLoneLf, List.getElem?_append_left h, followsCr_concat c h.le]

/-! ### One more character -/

theorem count_emit (afterCr : Bool) (c : Char) :
    (emit afterCr c).count '\n' = [c].count '\r' + if c == '\n' && !afterCr then 1 else 0 := by
  unfold emit
  split
  · next hcr => simp [hcr]
  split
  · next hpair => simp [hpair]
  · next hcr hpair =>
    by_cases hlf : c = '\n'
    · have halone : afterCr = false := by simpa [hlf] using hpair
      simp [hlf, halone]
    · simp [hcr, hlf]

theorem filter_emit (afterCr : Bool) (c : Char) :
    (emit afterCr c).filter (· ≠ '\n') = [c].filter (fun c => c ≠ '\r' ∧ c ≠ '\n') := by
  unfold emit
  split
  · next hcr => simp [hcr]
  split
  · next hpair => simp [hpair.1]
  · next hcr _ => simp [List.filter_cons, hcr]

/-- A character at the end adds to the folded text what the reader emits for it. -/
theorem unify_concat (text : List Char) (c : Char) :
    unify (text ++ [c]) = unify text ++ emit (followsCr text text.length) c := by
  by_cases hpair : text.getLast? = some '\r' ∧ c = '\n'
  · -- the CR has been folded by itself already, so the LF that makes a pair of it adds nothing
    obtain ⟨hlast, rfl⟩ := hpair
    have hemit : emit (followsCr text text.length) '\n' = [] := by
      rw [followsCr_length.2 hlast]
      rfl
    obtain ⟨front, rfl⟩ := List.getLast?_eq_some_iff.1 hlast
    rw [hemit, List.append_nil, List.append_assoc, unify_append front (by simp),
      unify_append front (by simp)]
    rfl
  · have halone : unify [c] = [crToLf c] := unify_cons fun _ _ h => nomatch h
    have hemit : emit (followsCr text text.length) c = [crToLf c] := by
      unfold emit crToLf
      split
      · rfl
      · exact if_neg fun h => hpair ⟨followsCr_length.1 h.2, h.1⟩
    rw [unify_append_of_seam (by simpa using hpair), halone, hemit]

/-! ### A whole text

Each induction takes the last character off, since what the reader has emitted hangs on what it has
passed and never on what is to come.
-/

/-- After a text the reader has emitted the folded text and knows whether a CR ends it. -/
theorem foldl_pass (text : List Char) :
    text.foldl Reader.pass ⟨false, []⟩ = ⟨followsCr text text.length, unify text⟩ := by
  induction text using List.reverseRecOn with
  | nil => rfl
  | append_singleton text c ih =>
    have hlast : followsCr (text ++ [c]) (text.length + 1) = (c == '\r') := by simp [followsCr]
    rw [List.foldl_concat, ih, unify_concat, List.length_append, List.length_singleton, hlast]
    rfl

/-- The two passes come to the same as the reader's one. -/
theorem fold_eq_onePass (text : List Char) : fold text = onePass text := by
  rw [fold_eq_unify, onePass, foldl_pass]

/-- The folded text is what is emitted for its positions, one after the other. -/
theorem unify_eq_flatMap (text : List Char) :
    unify text = (List.range text.length).flatMap (emittedAt text) := by
  induction text using List.reverseRecOn with
  | nil => rfl
  | append_singleton text c ih =>
    have hbefore : (List.range text.length).flatMap (emittedAt (text ++ [c])) =
        (List.range text.length).flatMap (emittedAt text) :=
      List.flatMap_congr fun i hi => emittedAt_concat c (List.mem_range.1 hi)
    have hlast : emittedAt (text ++ [c]) text.length = emit (followsCr text text.length) c := by
      simp [emittedAt, followsCr_concat]
    rw [unify_concat, List.length_append, List.length_singleton, List.range_succ,
      List.flatMap_append, hbefore, List.flatMap_singleton, hlast, ih]

/-- Every CR gives a line end, and so does every LF with no CR right before it. -/
theorem count_unify (text : List Char) :
    (unify text).count '\n' =
      text.count '\r' + (List.range text.length).countP (isLoneLf text) := by
  induction text using List.reverseRecOn with
  | nil => rfl
  | append_singleton text c ih =>
    have hbefore : (List.range text.length).countP (isLoneLf (text ++ [c])) =
        (List.range text.length).countP (isLoneLf text) :=
      List.countP_congr fun i hi => by rw [isLoneLf_concat c (List.mem_range.1 hi)]
    have hlast : isLoneLf (text ++ [c]) text.length =
        (c == '\n' && !followsCr text text.length) := by
      simp [isLoneLf, followsCr_concat]
    rw [unify_concat, List.count_append, ih, count_emit, List.count_append, List.length_append,
      List.length_singleton, List.range_succ, List.countP_append, hbefore, List.countP_singleton,
      hlast]
    exact Nat.add_add_add_comm ..

/-- All but the line ends is kept, in its order. -/
theorem filter_unify (text : List Char) :
    (unify text).filter (· ≠ '\n') = text.filter (fun c => c ≠ '\r' ∧ c ≠ '\n') := by
  induction text using List.reverseRecOn with
  | nil => rfl
  | append_singleton text c ih =>
    rw [unify_concat, List.filter_append, ih, filter_emit, List.filter_append]

/-- Line ends are folded as in one pass from left to right, in which each CR gives LF, an LF right after
a CR nothing and any other character itself. The LFs of the result are as many as the CRs and the LFs with
no CR right before them, and all else stands as it did. -/
theorem fold_in_one_pass (text : List Char) :
    fold text = onePass text ∧
      onePass text = (List.range text.length).flatMap (emittedAt text) ∧
      (fold text).count '\n' =
        text.count '\r' + (List.range text.length).countP (isLoneLf text) ∧
      (fold text).filter (· ≠ '\n') = text.filter (fun c => c ≠ '\r' ∧ c ≠ '\n') := by
  rw [← fold_eq_onePass, fold_eq_unify]
  exact ⟨rfl, unify_eq_flatMap text, count_unify text, filter_unify text⟩

/-- Once the pair in the middle is LF, the CR before it stands beside an LF that is not of its line end. -/
example : onePass "a\r\r\n\nb".toList = "a\n\n\nb".toList := by decide

end Newline

end SourceBundle
