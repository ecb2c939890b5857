import SourceBundle.Proofs.Text.Pieces

/-!
Reading bytes in two parts. The texts of the two parts are together the text of the whole unless something
goes across the seam: a character, when the second part begins with a byte that may go on with one, or a
line end, when the text of the second part begins with LF. Nothing else can, so a second part that begins
with a whole character other than LF is read by itself, whatever the first part ends in.
-/

namespace SourceBundle

namespace Newline

variable {front rest : List Char} {c : Char}

/-- A character that does not begin a CR LF is folded by itself. -/
theorem unify_cons (h : ∀ after, c = '\r' → rest ≠ '\n' :: after) :
    unify (c :: rest) = crToLf c :: unify rest := by
  rw [unify]
  exact fun after hc hrest => h after hc hrest

/-- Line ends are folded in two parts as in one unless the first part ends in CR and the second begins
with LF. -/
theorem unify_append_of_seam (h : ¬ (front.getLast? = some '\r' ∧ rest.head? = some '\n')) :
    unify (front ++ rest) = unify front ++ unify rest := by
  have hlast : ∀ (c : Char) (front : List Char), front.getLast? = some '\r' →
      (c :: front).getLast? = some '\r' := by
    intro c front hcr
    simp [List.getLast?_cons, hcr]
  fun_induction unify front with
  | case1 front ih =>
    rw [List.cons_append, List.cons_append, unify,
      ih fun hseam => h ⟨hlast _ _ (hlast _ _ hseam.1), hseam.2⟩, List.cons_append]
  | case2 c front hpair ih =>
    have halone : ∀ after, c = '\r' → front ++ rest ≠ '\n' :: after := by
      intro after hc hlf
      cases front with
      | nil => exact h ⟨by rw [hc]; rfl, by rw [← List.nil_append rest, hlf]; rfl⟩
      | cons d front => exact hpair front hc (by rw [(List.cons.inj hlf).1])
    rw [List.cons_append, unify_cons halone, ih fun hseam => h ⟨hlast _ _ hseam.1, hseam.2⟩,
      List.cons_append]
  | case3 => rfl

/-- In particular unless the second part begins with LF. -/
theorem unify_append (front : List Char) (h : rest.head? ≠ some '\n') :
    unify (front ++ rest) = unify front ++ unify rest := unify_append_of_seam fun hseam => h hseam.2

end Newline

namespace Utf8

variable {rest : Bytes} {b : UInt8} {c : Char}

theorem dropBroken_append (front : Bytes) (h : ∀ b, rest.head? = some b → ¬ Continues b) :
    dropBroken (front ++ rest) = dropBroken front ++ dropBroken rest := by
  rw [dropBroken, pieces_append front h, List.filterMap_append]
  rfl

theorem dropBroken_char_append (c : Char) (rest : Bytes) :
    dropBroken (String.utf8EncodeChar c ++ rest) = c :: dropBroken rest := by
  rw [dropBroken, pieces_char_append]
  rfl

/-- A byte that goes on with a character is lost where none has begun. -/
theorem dropBroken_of_continues (h : Continues b) : dropBroken (b :: rest) = dropBroken rest := by
  have hnone : charsAt ([b] ++ rest) = charsAt rest := charsAt_of_continues (by simpa using h)
  rw [dropBroken_eq_charsAt, dropBroken_eq_charsAt]
  exact hnone

/-- The encoding of a character begins with a byte that goes on with none. -/
theorem not_continues_of_char (h : (String.utf8EncodeChar c ++ rest).head? = some b) :
    ¬ Continues b := by
  rintro ⟨hlow, hhigh⟩
  rw [List.head?_append_of_ne_nil _ String.utf8EncodeChar_ne_nil] at h
  obtain ⟨tail, htail⟩ := List.head?_eq_some_iff.1 h
  have hstray : ∀ found, Scan.start found b = ⟨.broken [b] :: found, none⟩ := fun _ =>
    start_stray (.inl ⟨hlow, by omega⟩)
  have hprefix : String.utf8EncodeChar c <+: b :: tail := by rw [htail]
  exact not_prefix_of_stray hstray c hprefix

end Utf8

namespace Text

open Utf8

variable {rest : Bytes}

/-- Bytes that take up nothing which was left open before them. -/
structure Fresh (rest : Bytes) : Prop where
  /-- They do not begin with a byte that may go on with a character. -/
  character : ∀ b, rest.head? = some b → ¬ Continues b
  /-- Their text does not begin with the LF that a CR may wait for. -/
  line : (dropBroken rest).head? ≠ some '\n'

theorem Fresh.charsOfBytes_append (h : Fresh rest) (front : Bytes) :
    charsOfBytes (front ++ rest) = charsOfBytes front ++ charsOfBytes rest := by
  rw [charsOfBytes_eq, charsOfBytes_eq, charsOfBytes_eq, dropBroken_append front h.character,
    Newline.unify_append _ h.line]

/-- Bytes that are always read by themselves begin with none that may go on with a character: after the
lead byte 0xC2 it would complete one. -/
theorem character_of_append
    (h : ∀ front, charsOfBytes (front ++ rest) = charsOfBytes front ++ charsOfBytes rest) :
    ∀ b, rest.head? = some b → ¬ Continues b := by
  intro b hhead hcontinues
  obtain ⟨after, rfl⟩ := List.head?_eq_some_iff.1 hhead
  have hlow : 0x80 ≤ b.toNat := hcontinues.1
  have hencodes := utf8EncodeChar_two (b := 0xC2) (by decide) (by decide) hcontinues
  generalize hc : Char.ofNat (((0xC2 : UInt8).toNat - 0xC0) * 64 + (b.toNat - 0x80)) = c at hencodes
  have hwhole : dropBroken ([0xC2] ++ b :: after) = c :: dropBroken after := by
    have hsplit : [0xC2] ++ b :: after = String.utf8EncodeChar c ++ after := by rw [hencodes]; rfl
    rw [hsplit, dropBroken_char_append]
  have hcr : c ≠ '\r' := by
    rintro rfl
    cases hencodes
  have hboth := h [0xC2]
  rw [charsOfBytes_eq, charsOfBytes_eq (b :: after), hwhole, dropBroken_of_continues hcontinues,
    Newline.unify_cons fun _ hc' => absurd hc' hcr] at hboth
  exact List.cons_ne_self _ _ hboth

/-- Nor does their text begin with LF: after CR it would be part of one line end. -/
theorem line_of_append
    (h : ∀ front, charsOfBytes (front ++ rest) = charsOfBytes front ++ charsOfBytes rest) :
    (dropBroken rest).head? ≠ some '\n' := by
  intro hhead
  obtain ⟨after, hafter⟩ := List.head?_eq_some_iff.1 hhead
  have hwhole : dropBroken ([0x0D] ++ rest) = '\r' :: dropBroken rest :=
    dropBroken_char_append '\r' rest
  have hcr : charsOfBytes [0x0D] = ['\n'] := rfl
  have hlf : Newline.unify ('\n' :: after) = '\n' :: Newline.unify after :=
    Newline.unify_cons fun _ hc => absurd hc (by decide)
  have hboth := h [0x0D]
  rw [hcr, charsOfBytes_eq, charsOfBytes_eq, hwhole, hafter, Newline.unify, hlf] at hboth
  exact List.cons_ne_self _ _ (List.cons.inj hboth).2.symm

/-- A second part is read by itself, after every first part, exactly when it takes up nothing that a
first part may leave open. -/
theorem ofBytes_append_iff :
    (∀ front, ofBytes (front ++ rest) = ofBytes front ++ ofBytes rest) ↔ Fresh rest := by
  have hchars : ∀ front, ofBytes (front ++ rest) = ofBytes front ++ ofBytes rest ↔
      charsOfBytes (front ++ rest) = charsOfBytes front ++ charsOfBytes rest := by
    intro front
    rw [ofBytes, ofBytes, ofBytes, ← String.ofList_append, String.ofList_inj]
  simp only [hchars]
  exact ⟨fun h => ⟨character_of_append h, line_of_append h⟩, Fresh.charsOfBytes_append⟩

/-- Nothing at all, or a whole character other than LF, takes up nothing. -/
theorem fresh_of_char
    (h : rest = [] ∨ ∃ c after, c ≠ '\n' ∧ rest = String.utf8EncodeChar c ++ after) : Fresh rest := by
  rcases h with rfl | ⟨c, after, hc, rfl⟩
  · refine ⟨?_, by decide⟩
    intro b hb
    cases hb
  · refine ⟨fun _ => not_continues_of_char, ?_⟩
    rw [dropBroken_char_append]
    simpa using hc

/-- Bytes that begin with a whole character other than LF are read by themselves, whatever comes before
them. -/
theorem ofBytes_append (h : rest = [] ∨ ∃ c after, c ≠ '\n' ∧ rest = String.utf8EncodeChar c ++ after)
    (front : Bytes) : ofBytes (front ++ rest) = ofBytes front ++ ofBytes rest :=
  ofBytes_append_iff.2 (fresh_of_char h) front

/-- After a CR and a character that breaks off, `é` and what follows are read by themselves. -/
theorem ofBytes_append_after_cr :
    (∃ c after, c ≠ '\n' ∧ ([0xC3, 0xA9, 0xFF, 0x0D] : Bytes) = String.utf8EncodeChar c ++ after) ∧
      ofBytes ([0x61, 0x0D, 0xE2, 0x82] ++ [0xC3, 0xA9, 0xFF, 0x0D]) =
        ofBytes [0x61, 0x0D, 0xE2, 0x82] ++ ofBytes [0xC3, 0xA9, 0xFF, 0x0D] ∧
      ofBytes ([0x61, 0x0D, 0xE2, 0x82] ++ [0xC3, 0xA9, 0xFF, 0x0D]) = "a\né\n" := by
  have hchar : ∃ c after, c ≠ '\n' ∧
      ([0xC3, 0xA9, 0xFF, 0x0D] : Bytes) = String.utf8EncodeChar c ++ after :=
    ⟨'é', [0xFF, 0x0D], by decide, by decide⟩
  exact ⟨hchar, ofBytes_append (.inr hchar) _, by decide⟩

/-- A stray byte before LF does not keep a CR from it. -/
example : ofBytes ([0x0D] ++ [0xFF, 0x0A]) ≠ ofBytes [0x0D] ++ ofBytes [0xFF, 0x0A] := by decide

end Text

end SourceBundle
