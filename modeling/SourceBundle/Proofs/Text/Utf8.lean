import SourceBundle.Path.Basic

/-!
Reading back what UTF-8 wrote. The scanner takes the bytes of one character, of whatever width, and
stands where it stood before with that character found; so the bytes of a text are read as its
characters, and the path that a text spells is shown as that text.
-/

namespace SourceBundle

namespace Utf8

/-! ### One character -/

theorem start_of_lt {pieces : List Piece} {b : UInt8} (h : b.toNat < 0x80) :
    Scan.start pieces b = ⟨.char (Char.ofNat b.toNat) :: pieces, none⟩ := by
  have h : b < 0x80 := UInt8.lt_iff_toNat_lt.2 h
  rw [Scan.start, if_pos h]

theorem feed_start (pieces : List Piece) (b : UInt8) :
    Scan.feed ⟨pieces, none⟩ b = Scan.start pieces b := rfl

/-- A byte that begins a character of two bytes. -/
theorem start_two {pieces : List Piece} {b : UInt8} (hlow : 0xC2 ≤ b.toNat)
    (hhigh : b.toNat < 0xE0) :
    Scan.start pieces b = ⟨pieces, some ⟨0, 0x80, 0xBF, b.toNat - 0xC0, [b]⟩⟩ := by
  simp only [Scan.start, UInt8.lt_iff_toNat_lt, UInt8.reduceToNat]
  rw [if_neg (by omega), if_neg (by omega), if_pos hhigh]

/-- A byte that begins a character of three bytes. -/
theorem start_three {pieces : List Piece} {b : UInt8} (hlow : 0xE0 ≤ b.toNat)
    (hhigh : b.toNat < 0xF0) :
    Scan.start pieces b =
      ⟨pieces, some ⟨1, if b = 0xE0 then 0xA0 else 0x80, if b = 0xED then 0x9F else 0xBF,
        b.toNat - 0xE0, [b]⟩⟩ := by
  simp only [Scan.start, UInt8.lt_iff_toNat_lt, UInt8.reduceToNat]
  rw [if_neg (by omega), if_neg (by omega), if_neg (by omega), if_pos hhigh]

/-- A byte that begins a character of four bytes. -/
theorem start_four {pieces : List Piece} {b : UInt8} (hlow : 0xF0 ≤ b.toNat)
    (hhigh : b.toNat < 0xF5) :
    Scan.start pieces b =
      ⟨pieces, some ⟨2, if b = 0xF0 then 0x90 else 0x80, if b = 0xF4 then 0x8F else 0xBF,
        b.toNat - 0xF0, [b]⟩⟩ := by
  simp only [Scan.start, UInt8.lt_iff_toNat_lt, UInt8.reduceToNat]
  rw [if_neg (by omega), if_neg (by omega), if_neg (by omega), if_neg (by omega), if_pos hhigh]

/-- The last byte of a character. -/
theorem feed_last {pieces : List Piece} {low high b : UInt8} {value : Nat} {seen : Bytes}
    (hlow : low.toNat ≤ b.toNat) (hhigh : b.toNat ≤ high.toNat) :
    Scan.feed ⟨pieces, some ⟨0, low, high, value, seen⟩⟩ b =
      ⟨.char (Char.ofNat (value * 64 + (b.toNat - 0x80))) :: pieces, none⟩ := by
  simp only [Scan.feed, UInt8.le_iff_toNat_le]
  rw [if_pos ⟨hlow, hhigh⟩]

/-- A byte of a character that is not its last. -/
theorem feed_next {pieces : List Piece} {low high b : UInt8} {owed value : Nat} {seen : Bytes}
    (hlow : low.toNat ≤ b.toNat) (hhigh : b.toNat ≤ high.toNat) :
    Scan.feed ⟨pieces, some ⟨owed + 1, low, high, value, seen⟩⟩ b =
      ⟨pieces, some ⟨owed, 0x80, 0xBF, value * 64 + (b.toNat - 0x80), b :: seen⟩⟩ := by
  simp only [Scan.feed, UInt8.le_iff_toNat_le]
  rw [if_pos ⟨hlow, hhigh⟩]

/-- A byte with six bits of a character is one that may go on with it. -/
theorem continues {x : UInt8} {n : Nat} (h : x.toNat = n % 0x40 + 0x80) :
    (0x80 : UInt8).toNat ≤ x.toNat ∧ x.toNat ≤ (0xBF : UInt8).toNat := by
  have hlow : (0x80 : UInt8).toNat = 128 := rfl
  have hhigh : (0xBF : UInt8).toNat = 191 := rfl
  omega

variable {v : Nat} {b c d e : UInt8}

/-- Two bytes of one character. -/
theorem foldl_feed_two (pieces : List Piece) (hb : b.toNat = v / 64 % 0x20 + 0xC0)
    (hc : c.toNat = v % 0x40 + 0x80) (hv : ¬v ≤ 0x7F) (hv' : v ≤ 0x7FF) :
    [b, c].foldl Scan.feed ⟨pieces, none⟩ = ⟨.char (Char.ofNat v) :: pieces, none⟩ := by
  have hvalue : (b.toNat - 0xC0) * 64 + (c.toNat - 0x80) = v := by omega
  obtain ⟨hlow, hhigh⟩ := continues hc
  rw [List.foldl_cons, List.foldl_cons, List.foldl_nil, feed_start,
    start_two (by omega) (by omega), feed_last hlow hhigh, hvalue]

/-- Three bytes of one character: no shorter form would do, and it is no surrogate. -/
theorem foldl_feed_three (pieces : List Piece) (hb : b.toNat = v / 4096 % 0x10 + 0xE0)
    (hc : c.toNat = v / 64 % 0x40 + 0x80) (hd : d.toNat = v % 0x40 + 0x80) (hv : ¬v ≤ 0x7FF)
    (hv' : v ≤ 0xFFFF) (hvalid : v < 0xD800 ∨ 0xDFFF < v) :
    [b, c, d].foldl Scan.feed ⟨pieces, none⟩ = ⟨.char (Char.ofNat v) :: pieces, none⟩ := by
  have hvalue : ((b.toNat - 0xE0) * 64 + (c.toNat - 0x80)) * 64 + (d.toNat - 0x80) = v := by omega
  have hlow : (if b = 0xE0 then (0xA0 : UInt8) else 0x80).toNat ≤ c.toNat := by
    split
    · next h =>
      rw [h] at hb
      change 224 = _ at hb
      change 160 ≤ c.toNat
      omega
    · change 128 ≤ c.toNat
      omega
  have hhigh : c.toNat ≤ (if b = 0xED then (0x9F : UInt8) else 0xBF).toNat := by
    split
    · next h =>
      rw [h] at hb
      change 237 = _ at hb
      change c.toNat ≤ 159
      omega
    · change c.toNat ≤ 191
      omega
  obtain ⟨hlow', hhigh'⟩ := continues hd
  rw [List.foldl_cons, List.foldl_cons, List.foldl_cons, List.foldl_nil, feed_start,
    start_three (by omega) (by omega), feed_next hlow hhigh, feed_last hlow' hhigh', hvalue]

/-- Four bytes of one character: no shorter form would do, and it is not past the last one. -/
theorem foldl_feed_four (pieces : List Piece) (hb : b.toNat = v / 262144 % 0x08 + 0xF0)
    (hc : c.toNat = v / 4096 % 0x40 + 0x80) (hd : d.toNat = v / 64 % 0x40 + 0x80)
    (he : e.toNat = v % 0x40 + 0x80) (hv : ¬v ≤ 0xFFFF) (hv' : v < 0x110000) :
    [b, c, d, e].foldl Scan.feed ⟨pieces, none⟩ = ⟨.char (Char.ofNat v) :: pieces, none⟩ := by
  have hvalue : (((b.toNat - 0xF0) * 64 + (c.toNat - 0x80)) * 64 + (d.toNat - 0x80)) * 64 +
      (e.toNat - 0x80) = v := by omega
  have hlow : (if b = 0xF0 then (0x90 : UInt8) else 0x80).toNat ≤ c.toNat := by
    split
    · next h =>
      rw [h] at hb
      change 240 = _ at hb
      change 144 ≤ c.toNat
      omega
    · change 128 ≤ c.toNat
      omega
  have hhigh : c.toNat ≤ (if b = 0xF4 then (0x8F : UInt8) else 0xBF).toNat := by
    split
    · next h =>
      rw [h] at hb
      change 244 = _ at hb
      change c.toNat ≤ 143
      omega
    · change c.toNat ≤ 191
      omega
  obtain ⟨hlow', hhigh'⟩ := continues hd
  obtain ⟨hlow'', hhigh''⟩ := continues he
  rw [List.foldl_cons, List.foldl_cons, List.foldl_cons, List.foldl_cons, List.foldl_nil,
    feed_start, start_four (by omega) (by omega), feed_next hlow hhigh, feed_next hlow' hhigh',
    feed_last hlow'' hhigh'', hvalue]

/-- The bytes of one character are read as that character. -/
theorem foldl_feed_char (pieces : List Piece) (c : Char) :
    (String.utf8EncodeChar c).foldl Scan.feed ⟨pieces, none⟩ = ⟨.char c :: pieces, none⟩ := by
  have hchar : Char.ofNat c.val.toNat = c := Char.ofNat_toNat c
  have hvalid : c.val.toNat < 0xD800 ∨ 0xDFFF < c.val.toNat ∧ c.val.toNat < 0x110000 := c.valid
  generalize hv : c.val.toNat = v at hchar hvalid
  have hbyte : ∀ n, n < 256 → (UInt8.ofNat n).toNat = n := fun n hn => by
    rw [UInt8.toNat_ofNat']
    exact Nat.mod_eq_of_lt hn
  unfold String.utf8EncodeChar
  simp only [hv]
  rw [← hchar]
  split
  · have hlead := hbyte v (by omega)
    rw [List.foldl_cons, List.foldl_nil, feed_start, start_of_lt (by omega), hlead]
  split
  · exact foldl_feed_two pieces (hbyte _ (by omega)) (hbyte _ (by omega)) ‹_› ‹_›
  split
  · exact foldl_feed_three pieces (hbyte _ (by omega)) (hbyte _ (by omega)) (hbyte _ (by omega))
      ‹_› ‹_› (by omega)
  · exact foldl_feed_four pieces (hbyte _ (by omega)) (hbyte _ (by omega)) (hbyte _ (by omega))
      (hbyte _ (by omega)) ‹_› (by omega)

/-! ### Whole texts -/

theorem foldl_feed_chars (chars : List Char) (pieces : List Piece) :
    (chars.flatMap String.utf8EncodeChar).foldl Scan.feed ⟨pieces, none⟩ =
      ⟨(chars.map .char).reverse ++ pieces, none⟩ := by
  induction chars generalizing pieces with
  | nil => rfl
  | cons c rest ih =>
    rw [List.flatMap_cons, List.foldl_append, foldl_feed_char, ih]
    simp

/-- Every character takes a byte. -/
theorem flatMap_utf8EncodeChar_eq_nil_iff {chars : List Char} :
    chars.flatMap String.utf8EncodeChar = [] ↔ chars = [] := by
  rw [List.flatMap_eq_nil_iff]
  constructor
  · intro h
    exact List.eq_nil_iff_forall_not_mem.2 fun c hc => String.utf8EncodeChar_ne_nil (h c hc)
  · rintro rfl
    simp

/-- Different texts are written differently. -/
theorem flatMap_utf8EncodeChar_inj {chars chars' : List Char} :
    chars.flatMap String.utf8EncodeChar = chars'.flatMap String.utf8EncodeChar ↔ chars = chars' := by
  constructor
  · intro h
    have hscan := foldl_feed_chars chars []
    rw [h, foldl_feed_chars] at hscan
    have hmap : chars'.map Piece.char = chars.map Piece.char := by
      simpa using congrArg Scan.pieces hscan
    exact ((List.map_inj_right fun _ _ => Piece.char.inj).1 hmap).symm
  · rintro rfl
    rfl

theorem ofString_eq_nil_iff {text : String} : Bytes.ofString text = [] ↔ text = "" := by
  rw [Bytes.ofString, flatMap_utf8EncodeChar_eq_nil_iff, String.toList_eq_nil_iff]

/-- The pieces of a text are its characters. -/
theorem pieces_ofString (s : String) : pieces (Bytes.ofString s) = s.toList.map .char := by
  rw [pieces, Bytes.ofString, foldl_feed_chars]
  simp [Scan.finish]

/-- Of a text no character is lost. -/
theorem dropBroken_ofString (s : String) : dropBroken (Bytes.ofString s) = s.toList := by
  rw [dropBroken, pieces_ofString, List.filterMap_map]
  exact List.filterMap_some ..

/-- A text is shown as itself. -/
theorem replaceBroken_ofString (s : String) : replaceBroken (Bytes.ofString s) = s := by
  simp [replaceBroken, pieces_ofString, Function.comp_def]

end Utf8

/-- The path that a text spells is shown as that text. -/
theorem Path.shown_ofString (s : String) : (ofString s).shown = s := Utf8.replaceBroken_ofString s

end SourceBundle
