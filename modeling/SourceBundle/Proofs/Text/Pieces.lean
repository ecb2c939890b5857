import SourceBundle.Proofs.Text.Positions

/-!
The pieces of a byte string hold all its bytes, in order. So a text that is shown without U+FFFD is the
text that the bytes encode, and bytes are well formed exactly when they are what their text is written
as. A byte that cannot go on with a character ends the one that has begun, so the pieces of bytes that
are cut before such a byte are those of the two parts.
-/

namespace SourceBundle

namespace Utf8

/-- The bytes that a piece stands for. -/
def Piece.bytes : Piece → Bytes
  | .char c => String.utf8EncodeChar c
  | .broken bytes => bytes

variable {bytes rest : Bytes} {b : UInt8} {c : Char} {s : Scan} {text : String}

/-! ### No byte is lost -/

/-- The bytes that the scanner has taken. -/
def Scan.taken (s : Scan) : Bytes := s.pieces.reverse.flatMap Piece.bytes ++ s.held

theorem Scan.taken_start (found : List Piece) (b : UInt8) :
    (Scan.start found b).taken = found.reverse.flatMap Piece.bytes ++ [b] := by
  cases starts b with
  | char hb =>
    rw [start_of_lt hb]
    simp [taken, held, Piece.bytes, utf8EncodeChar_one hb]
  | broken h =>
    rw [h]
    simp [taken, held, Piece.bytes]
  | begun p hseen _ h =>
    rw [h]
    simp [taken, held, hseen]

theorem Scan.Sound.taken_feed (hs : s.Sound) (b : UInt8) : (s.feed b).taken = s.taken ++ [b] := by
  obtain ⟨found, pending⟩ := s
  cases pending with
  | none =>
    rw [feed_start, Scan.taken_start]
    simp [taken, held]
  | some p =>
    have hp := hs p rfl
    by_cases hfits : p.low ≤ b ∧ b ≤ p.high
    · obtain ⟨owed, low, high, value, seen⟩ := p
      obtain ⟨hlow, hhigh⟩ := hfits
      cases owed with
      | zero =>
        have hencodes := hp.encodes [b] _ (.last hlow hhigh)
        rw [feed_last (UInt8.le_iff_toNat_le.1 hlow) (UInt8.le_iff_toNat_le.1 hhigh)]
        simp [taken, held, Piece.bytes, hencodes]
      | succ owed =>
        rw [feed_next (UInt8.le_iff_toNat_le.1 hlow) (UInt8.le_iff_toNat_le.1 hhigh)]
        simp [taken, held]
    · have hfeed : Scan.feed ⟨found, some p⟩ b = Scan.start (.broken p.seen.reverse :: found) b := by
        simp only [Scan.feed, hfits, if_false]
      rw [hfeed, Scan.taken_start]
      simp [taken, held, Piece.bytes]

theorem Scan.flatMap_bytes_finish (s : Scan) : s.finish.flatMap Piece.bytes = s.taken := by
  obtain ⟨found, pending⟩ := s
  cases pending <;> simp [Scan.finish, taken, held, Piece.bytes]

theorem Scan.sound_init : Scan.Sound ⟨[], none⟩ := by
  intro p hp
  cases hp

theorem Scan.Sound.foldl (hs : s.Sound) (bytes : Bytes) : (bytes.foldl Scan.feed s).Sound := by
  induction bytes generalizing s with
  | nil => exact hs
  | cons b rest ih => exact ih (hs.feed b)

theorem Scan.Sound.taken_foldl (hs : s.Sound) (bytes : Bytes) :
    (bytes.foldl Scan.feed s).taken = s.taken ++ bytes := by
  induction bytes generalizing s with
  | nil => simp
  | cons b rest ih => rw [List.foldl_cons, ih (hs.feed b), hs.taken_feed, List.append_assoc]; rfl

/-- The pieces of a byte string hold its bytes. -/
theorem flatMap_bytes_pieces (bytes : Bytes) : (pieces bytes).flatMap Piece.bytes = bytes := by
  rw [pieces, Scan.flatMap_bytes_finish, Scan.sound_init.taken_foldl]
  rfl

/-- The bytes of a character that was found are among the bytes read. -/
theorem mem_of_char_mem_pieces (h : .char c ∈ pieces bytes) :
    ∀ b ∈ String.utf8EncodeChar c, b ∈ bytes := by
  intro b hb
  rw [← flatMap_bytes_pieces bytes]
  exact List.mem_flatMap.2 ⟨_, h, hb⟩

/-! ### Cutting between characters -/

theorem Scan.start_append (before found : List Piece) (b : UInt8) :
    Scan.start (found ++ before) b =
      ⟨(Scan.start found b).pieces ++ before, (Scan.start found b).pending⟩ := by
  cases starts b with
  | char hb => simp [start_of_lt hb]
  | broken h => simp [h]
  | begun p _ _ h => simp [h]

/-- What was found before has no say in what is found next. -/
theorem Scan.feed_append (before found : List Piece) (pending : Option Begun) (b : UInt8) :
    Scan.feed ⟨found ++ before, pending⟩ b =
      ⟨(Scan.feed ⟨found, pending⟩ b).pieces ++ before, (Scan.feed ⟨found, pending⟩ b).pending⟩ := by
  cases pending with
  | none => exact Scan.start_append before found b
  | some p =>
    unfold Scan.feed
    simp only
    split
    · split <;> rfl
    · exact Scan.start_append before (_ :: found) b

theorem finish_foldl_append (before found : List Piece) (pending : Option Begun) (bytes : Bytes) :
    (bytes.foldl Scan.feed ⟨found ++ before, pending⟩).finish =
      before.reverse ++ (bytes.foldl Scan.feed ⟨found, pending⟩).finish := by
  induction bytes generalizing found pending with
  | nil => cases pending <;> simp [Scan.finish]
  | cons b rest ih => rw [List.foldl_cons, List.foldl_cons, Scan.feed_append, ih]

/-- Past what was found, the bytes are read as by themselves. -/
theorem finish_foldl (found : List Piece) (bytes : Bytes) :
    (bytes.foldl Scan.feed ⟨found, none⟩).finish = found.reverse ++ pieces bytes :=
  finish_foldl_append found [] none bytes

/-- A byte that cannot go on with a character ends the one that has begun. -/
theorem Scan.Sound.feed_of_not_continues (hs : s.Sound) (h : ¬ Continues b) :
    s.feed b = Scan.feed ⟨s.finish.reverse, none⟩ b := by
  obtain ⟨found, pending⟩ := s
  cases pending with
  | none => simp [Scan.finish]
  | some p =>
    have hunfit : ¬ (p.low ≤ b ∧ b ≤ p.high) := fun hfits => h ((hs p rfl).bounds b hfits.1 hfits.2)
    rw [feed_start]
    simp only [Scan.feed, hunfit, if_false, Scan.finish, List.reverse_reverse]

/-- Bytes are read in two goes as in one when the second part begins with a byte that cannot go on
with a character. -/
theorem pieces_append (front : Bytes) (h : ∀ b, rest.head? = some b → ¬ Continues b) :
    pieces (front ++ rest) = pieces front ++ pieces rest := by
  cases rest with
  | nil => simp [pieces, Scan.finish]
  | cons b rest =>
    have hs := Scan.sound_init.foldl front
    -- the byte ends what the front has left begun, and from there on the scan is a fresh one
    rw [pieces, List.foldl_append, List.foldl_cons, hs.feed_of_not_continues (h b rfl),
      ← List.foldl_cons, finish_foldl, List.reverse_reverse]
    rfl

/-- A character in front is found first. -/
theorem pieces_char_append (c : Char) (rest : Bytes) :
    pieces (String.utf8EncodeChar c ++ rest) = .char c :: pieces rest := by
  rw [pieces, List.foldl_append, foldl_feed_char, finish_foldl]
  rfl

theorem pieces_char (c : Char) : pieces (String.utf8EncodeChar c) = [.char c] := by
  rw [← List.append_nil (String.utf8EncodeChar c), pieces_char_append]
  rfl

/-- Only its own character is written with an ASCII byte. -/
theorem mem_utf8EncodeChar_iff (hb : b.toNat < 0x80) :
    b ∈ String.utf8EncodeChar c ↔ c = Char.ofNat b.toNat := by
  constructor
  · intro h
    obtain ⟨before, after, hsplit⟩ := List.append_of_mem h
    have hseam : ∀ b', (b :: after).head? = some b' → ¬ Continues b' := by
      rintro b' ⟨rfl⟩ ⟨hlow, -⟩
      omega
    have hfound : pieces (b :: after) = .char (Char.ofNat b.toNat) :: pieces after := by
      have hone := pieces_char_append (Char.ofNat b.toNat) after
      rwa [utf8EncodeChar_one hb] at hone
    have hmem : .char (Char.ofNat b.toNat) ∈ pieces (String.utf8EncodeChar c) := by
      rw [hsplit, pieces_append before hseam, hfound]
      simp
    rw [pieces_char, List.mem_singleton] at hmem
    exact (Piece.char.inj hmem).symm
  · rintro rfl
    rw [utf8EncodeChar_one hb]
    exact List.mem_singleton_self b

/-! ### What is shown -/

/-- The character under which a piece is shown. -/
def Piece.shown : Piece → Char
  | .char c => c
  | .broken _ => '\uFFFD'

theorem toList_replaceBroken (bytes : Bytes) :
    (replaceBroken bytes).toList = (pieces bytes).map Piece.shown := by
  rw [replaceBroken, String.toList_ofList]
  rfl

/-- Any other character that is shown stands in the bytes. -/
theorem char_mem_pieces (h : c ∈ (replaceBroken bytes).toList) (hc : c ≠ '\uFFFD') :
    .char c ∈ pieces bytes := by
  rw [toList_replaceBroken] at h
  obtain ⟨piece, hpiece, hshown⟩ := List.mem_map.1 h
  cases piece with
  | char c' =>
    obtain rfl : c' = c := hshown
    exact hpiece
  | broken run => exact absurd hshown.symm hc

/-- Characters alone are written as they are shown. -/
theorem ofString_replaceBroken_of_chars (h : ∀ run, .broken run ∉ pieces bytes) :
    Bytes.ofString (replaceBroken bytes) = bytes := by
  have hwritten : ∀ piece ∈ pieces bytes, String.utf8EncodeChar piece.shown = piece.bytes := by
    intro piece hpiece
    cases piece with
    | char c => rfl
    | broken run => exact absurd hpiece (h run)
  rw [Bytes.ofString, toList_replaceBroken, List.flatMap_map, List.flatMap_congr hwritten,
    flatMap_bytes_pieces]

/-- Bytes that are shown without U+FFFD are those of the text that is shown. -/
theorem replaceBroken_eq_iff (h : '\uFFFD' ∉ text.toList) :
    replaceBroken bytes = text ↔ bytes = Bytes.ofString text := by
  constructor
  · rintro rfl
    refine (ofString_replaceBroken_of_chars ?_).symm
    intro run hrun
    rw [toList_replaceBroken] at h
    exact h (List.mem_map.2 ⟨_, hrun, rfl⟩)
  · rintro rfl
    exact replaceBroken_ofString text

/-- Bytes are well formed exactly when they are what their text is written as. -/
theorem isWellFormed_iff : isWellFormed bytes = true ↔ Bytes.ofString (replaceBroken bytes) = bytes := by
  rw [isWellFormed, List.all_eq_true]
  constructor
  · intro h
    refine ofString_replaceBroken_of_chars ?_
    intro run hrun
    exact Bool.false_ne_true (h _ hrun)
  · intro h piece hpiece
    rw [← h, pieces_ofString] at hpiece
    obtain ⟨c, -, rfl⟩ := List.mem_map.1 hpiece
    rfl

end Utf8

end SourceBundle
