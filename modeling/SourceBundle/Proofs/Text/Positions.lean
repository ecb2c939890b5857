import Mathlib.Data.List.Infix
import SourceBundle.Proofs.Text.Newline

/-!
Which characters reading keeps. A character is kept exactly where its encoding stands in the bytes,
whatever comes before it, and the characters stand in the order of their positions. The scanner is
compared with a look at every position by itself: while it runs, what it has found and what the bytes
still hold, those of a begun character included, are together always the same.
-/

namespace SourceBundle

namespace Utf8

variable {bytes rest u v : Bytes} {b x y z : UInt8} {c : Char} {i n : Nat} {found : List Piece}
  {p : Begun} {s : Scan}

/-! ### Characters by position -/

/-- The character whose encoding stands at position `i`. -/
def charAt? (bytes : Bytes) (i : Nat) : Option Char :=
  (bytes.drop i).toByteArray.utf8DecodeChar? 0

/-- The characters whose encodings stand in the bytes, by position. -/
def charsAt (bytes : Bytes) : List Char := (List.range bytes.length).filterMap (charAt? bytes)

theorem charAt?_eq_some_iff :
    charAt? bytes i = some c ↔ String.utf8EncodeChar c <+: bytes.drop i := by
  unfold charAt?
  constructor
  · intro h
    obtain ⟨after, hafter⟩ := ByteArray.exists_of_utf8DecodeChar?_eq_some h
    refine ⟨after.data.toList, ?_⟩
    have hlists := congrArg (fun a : ByteArray => a.data.toList) hafter
    simpa using hlists.symm
  · rintro ⟨after, hafter⟩
    rw [← hafter, List.toByteArray_append]
    exact ByteArray.utf8DecodeChar?_utf8EncodeChar_append

theorem charsAt_nil : charsAt [] = [] := rfl

theorem charsAt_cons : charsAt (b :: rest) = (charAt? (b :: rest) 0).toList ++ charsAt rest := by
  rw [charsAt, List.length_cons, List.range_succ_eq_map, List.filterMap_cons, List.filterMap_map]
  cases charAt? (b :: rest) 0 <;> rfl

theorem charsAt_cons_of_char (h : String.utf8EncodeChar c <+: b :: rest) :
    charsAt (b :: rest) = c :: charsAt rest := by
  rw [charsAt_cons, charAt?_eq_some_iff.2 h]
  rfl

theorem charsAt_cons_of_none (h : ∀ c, ¬ String.utf8EncodeChar c <+: b :: rest) :
    charsAt (b :: rest) = charsAt rest := by
  have hnone : charAt? (b :: rest) 0 = none :=
    Option.eq_none_iff_forall_ne_some.2 fun c hc => h c (charAt?_eq_some_iff.1 hc)
  rw [charsAt_cons, hnone]
  rfl

/-! ### What the scanner found stays found -/

theorem suffix_pieces_start (found : List Piece) (b : UInt8) :
    found <:+ (Scan.start found b).pieces := by
  unfold Scan.start
  repeat' split
  all_goals simp [List.suffix_cons]

theorem suffix_pieces_feed (s : Scan) (b : UInt8) : s.pieces <:+ (s.feed b).pieces := by
  unfold Scan.feed
  split
  · exact suffix_pieces_start _ _
  split
  · split
    · exact List.suffix_cons _ _
    · exact List.suffix_rfl
  · exact (List.suffix_cons _ _).trans (suffix_pieces_start _ _)

theorem suffix_pieces (bytes : Bytes) (s : Scan) :
    s.pieces <:+ (bytes.foldl Scan.feed s).pieces := by
  induction bytes generalizing s with
  | nil => exact List.suffix_rfl
  | cons b rest ih => exact (suffix_pieces_feed s b).trans (ih _)

/-- Bytes in which the scanner finds a broken run at once begin no character. -/
theorem not_prefix_of_broken {run : Bytes}
    (h : (.broken run :: found) <:+ (u.foldl Scan.feed ⟨found, none⟩).pieces)
    (c : Char) : ¬ String.utf8EncodeChar c <+: u ++ v := by
  intro hprefix
  have hchar : (.char c :: found) <:+
      ((String.utf8EncodeChar c).foldl Scan.feed ⟨found, none⟩).pieces := by
    rw [foldl_feed_char]
  have hapart : ∀ {pieces}, (.broken run :: found) <:+ pieces → ¬ (.char c :: found) <:+ pieces := by
    intro pieces hbroken hchar
    have heq := (List.suffix_of_suffix_length_le hbroken hchar (by simp)).eq_of_length (by simp)
    cases heq
  rcases List.prefix_or_prefix_of_prefix hprefix (List.prefix_append u v) with ⟨w, rfl⟩ | ⟨w, hw⟩
  · rw [List.foldl_append] at h
    exact hapart h (hchar.trans (suffix_pieces w _))
  · rw [← hw, List.foldl_append] at hchar
    exact hapart (h.trans (suffix_pieces w _)) hchar

/-- Nor does a byte that is a broken run by itself. -/
theorem not_prefix_of_stray (h : ∀ found, Scan.start found b = ⟨.broken [b] :: found, none⟩)
    (c : Char) : ¬ String.utf8EncodeChar c <+: b :: rest := by
  have hbroken : [.broken [b]] <:+ ([b].foldl Scan.feed ⟨[], none⟩).pieces := by
    rw [List.foldl_cons, List.foldl_nil, feed_start, h]
  exact not_prefix_of_broken hbroken c

/-! ### The bytes of a character -/

/-- A byte that may stand in a character after its first. -/
def Continues (b : UInt8) : Prop := 0x80 ≤ b.toNat ∧ b.toNat ≤ 0xBF

theorem val_ofNat (h : n.isValidChar) : (Char.ofNat n).val.toNat = n := by
  rw [Char.ofNat, dif_pos h]
  rfl

theorem ofNat_eq_byte (h : n = b.toNat) : UInt8.ofNat n = b := by
  rw [h, UInt8.ofNat_toNat]

theorem utf8EncodeChar_one (hb : b.toNat < 0x80) :
    String.utf8EncodeChar (Char.ofNat b.toNat) = [b] := by
  have hvalue := val_ofNat (n := b.toNat) (.inl (by omega))
  simp only [String.utf8EncodeChar, hvalue]
  rw [if_pos (by omega), ofNat_eq_byte rfl]

theorem utf8EncodeChar_two (hlow : 0xC2 ≤ b.toNat) (hhigh : b.toNat < 0xE0) (hx : Continues x) :
    String.utf8EncodeChar (Char.ofNat ((b.toNat - 0xC0) * 64 + (x.toNat - 0x80))) = [b, x] := by
  obtain ⟨hx, hx'⟩ := hx
  have hvalue := val_ofNat (n := (b.toNat - 0xC0) * 64 + (x.toNat - 0x80)) (.inl (by omega))
  simp only [String.utf8EncodeChar, hvalue]
  rw [if_neg (by omega), if_pos (by omega), ofNat_eq_byte (b := b) (by omega),
    ofNat_eq_byte (b := x) (by omega)]

/-- Three bytes encode a character unless a shorter form would do or they make a surrogate. -/
theorem utf8EncodeChar_three (hlow : 0xE0 ≤ b.toNat) (hhigh : b.toNat < 0xF0)
    (hshort : b.toNat = 0xE0 → 0xA0 ≤ x.toNat) (hsurrogate : b.toNat = 0xED → x.toNat ≤ 0x9F)
    (hx : Continues x) (hy : Continues y) :
    String.utf8EncodeChar (Char.ofNat
      (((b.toNat - 0xE0) * 64 + (x.toNat - 0x80)) * 64 + (y.toNat - 0x80))) = [b, x, y] := by
  obtain ⟨⟨hx, hx'⟩, ⟨hy, hy'⟩⟩ := And.intro hx hy
  generalize hn : ((b.toNat - 0xE0) * 64 + (x.toNat - 0x80)) * 64 + (y.toNat - 0x80) = n
  have hvalid : n.isValidChar := by
    unfold Nat.isValidChar
    omega
  simp only [String.utf8EncodeChar, val_ofNat hvalid]
  rw [if_neg (by omega), if_neg (by omega), if_pos (by omega), ofNat_eq_byte (b := b) (by omega),
    ofNat_eq_byte (b := x) (by omega), ofNat_eq_byte (b := y) (by omega)]

/-- Four bytes encode a character unless a shorter form would do or they go past the last one. -/
theorem utf8EncodeChar_four (hlow : 0xF0 ≤ b.toNat) (hhigh : b.toNat < 0xF5)
    (hshort : b.toNat = 0xF0 → 0x90 ≤ x.toNat) (hlast : b.toNat = 0xF4 → x.toNat ≤ 0x8F)
    (hx : Continues x) (hy : Continues y) (hz : Continues z) :
    String.utf8EncodeChar (Char.ofNat
      ((((b.toNat - 0xF0) * 64 + (x.toNat - 0x80)) * 64 + (y.toNat - 0x80)) * 64 +
        (z.toNat - 0x80))) = [b, x, y, z] := by
  obtain ⟨⟨hx, hx'⟩, ⟨hy, hy'⟩, ⟨hz, hz'⟩⟩ := And.intro hx (And.intro hy hz)
  generalize hn : (((b.toNat - 0xF0) * 64 + (x.toNat - 0x80)) * 64 + (y.toNat - 0x80)) * 64 +
    (z.toNat - 0x80) = n
  have hvalid : n.isValidChar := by
    unfold Nat.isValidChar
    omega
  simp only [String.utf8EncodeChar, val_ofNat hvalid]
  rw [if_neg (by omega), if_neg (by omega), if_neg (by omega), ofNat_eq_byte (b := b) (by omega),
    ofNat_eq_byte (b := x) (by omega), ofNat_eq_byte (b := y) (by omega),
    ofNat_eq_byte (b := z) (by omega)]

/-! ### A begun character -/

/-- The bytes that complete a begun character, and the character that they make. -/
inductive Begun.Completes : Begun → Bytes → Char → Prop
  | last {low high b : UInt8} {value : Nat} {seen : Bytes} (hlow : low ≤ b) (hhigh : b ≤ high) :
      Completes ⟨0, low, high, value, seen⟩ [b] (Char.ofNat (value * 64 + (b.toNat - 0x80)))
  | next {low high b : UInt8} {owed value : Nat} {seen bytes : Bytes} {c : Char} (hlow : low ≤ b)
      (hhigh : b ≤ high)
      (rest : Completes ⟨owed, 0x80, 0xBF, value * 64 + (b.toNat - 0x80), b :: seen⟩ bytes c) :
      Completes ⟨owed + 1, low, high, value, seen⟩ (b :: bytes) c

/-- What holds of every character that the scanner has begun. -/
structure Begun.Sound (p : Begun) : Prop where
  /-- The scanner came to it by the bytes seen. -/
  reached : ∀ found, p.seen.reverse.foldl Scan.feed ⟨found, none⟩ = ⟨found, some p⟩
  /-- What completes it makes, with the bytes seen, the encoding of a character. -/
  encodes : ∀ bytes c, p.Completes bytes c → String.utf8EncodeChar c = p.seen.reverse ++ bytes
  /-- After the first, no byte seen can begin a character. -/
  lead : ∃ b tail, p.seen.reverse = b :: tail ∧ ∀ x ∈ tail, Continues x
  bounds : ∀ b, p.low ≤ b → b ≤ p.high → Continues b

theorem continues_of_le (hlow : 0x80 ≤ b) (hhigh : b ≤ 0xBF) : Continues b :=
  ⟨UInt8.le_iff_toNat_le.1 hlow, UInt8.le_iff_toNat_le.1 hhigh⟩

/-- A begun character that takes one more byte is still sound. -/
theorem Begun.Sound.next {low high : UInt8} {owed value : Nat} {seen : Bytes}
    (h : Sound ⟨owed + 1, low, high, value, seen⟩) (hlow : low ≤ b) (hhigh : b ≤ high) :
    Sound ⟨owed, 0x80, 0xBF, value * 64 + (b.toNat - 0x80), b :: seen⟩ := by
  obtain ⟨hreached, hencodes, ⟨lead, tail, hseen, htail⟩, hbounds⟩ := h
  simp only at hreached hencodes hseen hbounds
  refine ⟨?_, ?_, ⟨lead, tail ++ [b], ?_, ?_⟩, fun _ => continues_of_le⟩
  · intro found
    rw [List.reverse_cons, List.foldl_append, hreached]
    exact feed_next (UInt8.le_iff_toNat_le.1 hlow) (UInt8.le_iff_toNat_le.1 hhigh)
  · intro bytes c hcompletes
    rw [hencodes _ _ (.next hlow hhigh hcompletes)]
    simp
  · simp [hseen]
  · intro x hx
    rcases List.mem_append.1 hx with hx | hx
    · exact htail x hx
    · obtain rfl := List.mem_singleton.1 hx
      exact hbounds x hlow hhigh

/-- A first byte that begins a longer character. -/
theorem Begun.sound_of_lead {low high : UInt8} {owed value : Nat}
    (hstart : ∀ found, Scan.start found b = ⟨found, some ⟨owed, low, high, value, [b]⟩⟩)
    (hbounds : ∀ x, low ≤ x → x ≤ high → Continues x)
    (hencodes : ∀ bytes c, Completes ⟨owed, low, high, value, [b]⟩ bytes c →
      String.utf8EncodeChar c = b :: bytes) : Sound ⟨owed, low, high, value, [b]⟩ :=
  ⟨hstart, hencodes, ⟨b, [], rfl, by simp⟩, hbounds⟩

/-- What the bounds of a second byte say, which some first bytes make narrower. -/
theorem bounds_of_ite {lead lead' low high : UInt8}
    (hlow : (if b = lead then low else 0x80) ≤ x) (hhigh : x ≤ if b = lead' then high else 0xBF) :
    (b.toNat = lead.toNat → low.toNat ≤ x.toNat) ∧
      (b.toNat = lead'.toNat → x.toNat ≤ high.toNat) := by
  simp only [UInt8.toNat_inj]
  constructor
  · intro h
    rw [if_pos h] at hlow
    exact UInt8.le_iff_toNat_le.1 hlow
  · intro h
    rw [if_pos h] at hhigh
    exact UInt8.le_iff_toNat_le.1 hhigh

theorem continues_of_ite {lead lead' low high : UInt8} (hl : 0x80 ≤ low) (hh : high ≤ 0xBF)
    (hlow : (if b = lead then low else 0x80) ≤ x) (hhigh : x ≤ if b = lead' then high else 0xBF) :
    Continues x := by
  refine continues_of_le ?_ ?_
  · split at hlow
    · exact UInt8.le_trans hl hlow
    · exact hlow
  · split at hhigh
    · exact UInt8.le_trans hhigh hh
    · exact hhigh

/-- What a byte does that no begun character can use. -/
inductive Starts (b : UInt8) : Prop
  | char (hb : b.toNat < 0x80)
  | broken (h : ∀ found, Scan.start found b = ⟨.broken [b] :: found, none⟩)
  | begun (p : Begun) (hseen : p.seen = [b]) (hp : p.Sound)
      (h : ∀ found, Scan.start found b = ⟨found, some p⟩)

theorem starts_two (hlow : 0xC2 ≤ b.toNat) (hhigh : b.toNat < 0xE0) : Starts b := by
  have hstart : ∀ found, Scan.start found b = _ := fun found => start_two hlow hhigh
  refine .begun _ rfl (Begun.sound_of_lead hstart (fun _ => continues_of_le) ?_) hstart
  intro bytes c hcompletes
  cases hcompletes with
  | last hx hx' => exact utf8EncodeChar_two hlow hhigh (continues_of_le hx hx')

theorem starts_three (hlow : 0xE0 ≤ b.toNat) (hhigh : b.toNat < 0xF0) : Starts b := by
  have hstart : ∀ found, Scan.start found b = _ := fun found => start_three hlow hhigh
  have hsecond : ∀ x, (if b = 0xE0 then 0xA0 else 0x80) ≤ x →
      x ≤ (if b = 0xED then 0x9F else 0xBF) → Continues x := fun x =>
    continues_of_ite (by decide) (by decide)
  refine .begun _ rfl (Begun.sound_of_lead hstart hsecond ?_) hstart
  intro bytes c hcompletes
  cases hcompletes with
  | next hx hx' rest =>
    cases rest with
    | last hy hy' =>
      obtain ⟨hshort, hsurrogate⟩ := bounds_of_ite hx hx'
      exact utf8EncodeChar_three hlow hhigh hshort hsurrogate (hsecond _ hx hx')
        (continues_of_le hy hy')

theorem starts_four (hlow : 0xF0 ≤ b.toNat) (hhigh : b.toNat < 0xF5) : Starts b := by
  have hstart : ∀ found, Scan.start found b = _ := fun found => start_four hlow hhigh
  have hsecond : ∀ x, (if b = 0xF0 then 0x90 else 0x80) ≤ x →
      x ≤ (if b = 0xF4 then 0x8F else 0xBF) → Continues x := fun x =>
    continues_of_ite (by decide) (by decide)
  refine .begun _ rfl (Begun.sound_of_lead hstart hsecond ?_) hstart
  intro bytes c hcompletes
  cases hcompletes with
  | next hx hx' rest =>
    cases rest with
    | next hy hy' rest =>
      cases rest with
      | last hz hz' =>
        obtain ⟨hshort, hlast⟩ := bounds_of_ite hx hx'
        exact utf8EncodeChar_four hlow hhigh hshort hlast (hsecond _ hx hx')
          (continues_of_le hy hy') (continues_of_le hz hz')

/-- Neither a byte that goes on with a character nor one of no character at all begins one. -/
theorem start_stray (h : 0x80 ≤ b.toNat ∧ b.toNat < 0xC2 ∨ 0xF5 ≤ b.toNat) :
    Scan.start found b = ⟨.broken [b] :: found, none⟩ := by
  simp only [Scan.start, UInt8.lt_iff_toNat_lt, UInt8.reduceToNat]
  rcases h with ⟨hlow, hhigh⟩ | h
  · rw [if_neg (by omega), if_pos hhigh]
  · rw [if_neg (by omega), if_neg (by omega), if_neg (by omega), if_neg (by omega),
      if_neg (by omega)]

theorem starts (b : UInt8) : Starts b := by
  by_cases hone : b.toNat < 0x80
  · exact .char hone
  by_cases hstray : b.toNat < 0xC2
  · exact .broken fun _ => start_stray (.inl ⟨by omega, hstray⟩)
  by_cases htwo : b.toNat < 0xE0
  · exact starts_two (by omega) htwo
  by_cases hthree : b.toNat < 0xF0
  · exact starts_three (by omega) hthree
  by_cases hfour : b.toNat < 0xF5
  · exact starts_four (by omega) hfour
  · exact .broken fun _ => start_stray (.inr (by omega))

/-! ### Where no character stands -/

/-- Bytes that go on with a character begin none. -/
theorem charsAt_of_continues (h : ∀ x ∈ u, Continues x) : charsAt (u ++ rest) = charsAt rest := by
  induction u with
  | nil => rfl
  | cons b u ih =>
    obtain ⟨⟨hlow, hhigh⟩, hrest⟩ := List.forall_mem_cons.1 h
    have hstray : ∀ found, Scan.start found b = ⟨.broken [b] :: found, none⟩ := fun _ =>
      start_stray (.inl ⟨hlow, by omega⟩)
    rw [List.cons_append, charsAt_cons_of_none (not_prefix_of_stray hstray), ih hrest]

/-- The bytes of a begun character make none yet. -/
theorem Begun.Sound.not_prefix_seen (hp : p.Sound) (c : Char) :
    ¬ String.utf8EncodeChar c <+: p.seen.reverse := by
  rintro ⟨w, hw⟩
  have hreached := hp.reached []
  rw [← hw, List.foldl_append, foldl_feed_char] at hreached
  have hsuffix := suffix_pieces w ⟨[.char c], none⟩
  rw [hreached] at hsuffix
  cases List.suffix_nil.1 hsuffix

/-- When a begun character stops short, no character stands where it began. -/
theorem Begun.Sound.charsAt_seen (hp : p.Sound)
    (h : ∀ c, ¬ String.utf8EncodeChar c <+: p.seen.reverse ++ rest) :
    charsAt (p.seen.reverse ++ rest) = charsAt rest := by
  obtain ⟨b, tail, hseen, htail⟩ := hp.lead
  rw [hseen, List.cons_append] at h ⊢
  rw [charsAt_cons_of_none h, charsAt_of_continues htail]

/-- A begun character that is completed stands where it began. -/
theorem Begun.Sound.charsAt_completed (hp : p.Sound) (hbytes : p.Completes bytes c)
    (h : ∀ x ∈ bytes, Continues x) :
    charsAt (p.seen.reverse ++ (bytes ++ rest)) = c :: charsAt rest := by
  obtain ⟨b, tail, hseen, htail⟩ := hp.lead
  have hencodes := hp.encodes bytes c hbytes
  have hprefix : String.utf8EncodeChar c <+: b :: (tail ++ (bytes ++ rest)) := by
    rw [hencodes, hseen]
    exact ⟨rest, by simp⟩
  rw [hseen, List.cons_append, charsAt_cons_of_char hprefix, charsAt_of_continues htail,
    charsAt_of_continues h]

/-! ### The scanner -/

/-- The character that a piece is. -/
def Piece.char? : Piece → Option Char
  | .char c => some c
  | .broken _ => none

theorem dropBroken_eq (bytes : Bytes) : dropBroken bytes = (pieces bytes).filterMap Piece.char? := rfl

/-- The bytes of the character that has begun. -/
def Scan.held (s : Scan) : Bytes := s.pending.elim [] fun p => p.seen.reverse

/-- The characters that the scanner has found, and those that stand in what it holds and what is still
to come. -/
def Scan.total (s : Scan) (rest : Bytes) : List Char :=
  s.pieces.reverse.filterMap Piece.char? ++ charsAt (s.held ++ rest)

/-- A begun character of the scanner is sound. -/
def Scan.Sound (s : Scan) : Prop := ∀ p, s.pending = some p → p.Sound

theorem Scan.sound_start (found : List Piece) (b : UInt8) : (Scan.start found b).Sound := by
  have hplain : ∀ {found}, Sound ⟨found, none⟩ := by
    intro found p hp
    cases hp
  cases starts b with
  | char hb =>
    rw [start_of_lt hb]
    exact hplain
  | broken h =>
    rw [h]
    exact hplain
  | begun p _ hp h =>
    rw [h]
    intro p' hp'
    cases hp'
    exact hp

theorem Scan.total_start (found : List Piece) (b : UInt8) (rest : Bytes) :
    (Scan.start found b).total rest = found.reverse.filterMap Piece.char? ++ charsAt (b :: rest) := by
  cases starts b with
  | char hb =>
    have hprefix : String.utf8EncodeChar (Char.ofNat b.toNat) <+: b :: rest := by
      rw [utf8EncodeChar_one hb]
      exact ⟨rest, rfl⟩
    rw [start_of_lt hb, charsAt_cons_of_char hprefix]
    simp [total, held, Piece.char?]
  | broken h =>
    rw [h, charsAt_cons_of_none (not_prefix_of_stray h)]
    simp [total, held, Piece.char?]
  | begun p hseen hp h =>
    rw [h]
    simp [total, held, hseen]

/-- A byte that the begun character cannot use: no character stands where that one began. -/
theorem Begun.Sound.not_prefix_of_unfit (hp : p.Sound) (h : ¬ (p.low ≤ b ∧ b ≤ p.high)) (c : Char) :
    ¬ String.utf8EncodeChar c <+: p.seen.reverse ++ b :: rest := by
  have hbroken : [.broken p.seen.reverse] <:+
      ((p.seen.reverse ++ [b]).foldl Scan.feed ⟨[], none⟩).pieces := by
    rw [List.foldl_append, hp.reached, List.foldl_cons, List.foldl_nil, Scan.feed]
    simp only [h, if_false]
    exact suffix_pieces_start _ _
  have hsplit : p.seen.reverse ++ b :: rest = (p.seen.reverse ++ [b]) ++ rest := by simp
  rw [hsplit]
  exact not_prefix_of_broken hbroken c

/-- A byte leaves a sound begun character behind, if any. -/
theorem Scan.Sound.feed (hs : s.Sound) (b : UInt8) : (s.feed b).Sound := by
  obtain ⟨found, pending⟩ := s
  cases pending with
  | none => exact sound_start found b
  | some p =>
    have hp := hs p rfl
    unfold Scan.feed
    simp only
    split
    · next hfits =>
      obtain ⟨owed, low, high, value, seen⟩ := p
      cases owed with
      | zero =>
        intro p hp
        cases hp
      | succ owed =>
        intro p' hp'
        cases hp'
        exact hp.next hfits.1 hfits.2
    · exact sound_start _ b

/-- A byte is taken from what is to come, and no character is lost or made up by it. -/
theorem Scan.Sound.total_feed (hs : s.Sound) (b : UInt8) (rest : Bytes) :
    (s.feed b).total rest = s.total (b :: rest) := by
  obtain ⟨found, pending⟩ := s
  cases pending with
  | none => exact total_start found b rest
  | some p =>
    have hp := hs p rfl
    by_cases hfits : p.low ≤ b ∧ b ≤ p.high
    · obtain ⟨owed, low, high, value, seen⟩ := p
      obtain ⟨hlow, hhigh⟩ := hfits
      cases owed with
      | zero =>
        have hcompleted : charsAt (seen.reverse ++ b :: rest) =
            Char.ofNat (value * 64 + (b.toNat - 0x80)) :: charsAt rest :=
          hp.charsAt_completed (.last hlow hhigh) (by simpa using hp.bounds b hlow hhigh)
        rw [feed_last (UInt8.le_iff_toNat_le.1 hlow) (UInt8.le_iff_toNat_le.1 hhigh)]
        simp [total, held, Piece.char?, hcompleted]
      | succ owed =>
        rw [feed_next (UInt8.le_iff_toNat_le.1 hlow) (UInt8.le_iff_toNat_le.1 hhigh)]
        simp [total, held]
    · have hfeed : Scan.feed ⟨found, some p⟩ b = Scan.start (.broken p.seen.reverse :: found) b := by
        simp only [Scan.feed, hfits, if_false]
      have hnone : charsAt (p.seen.reverse ++ b :: rest) = charsAt (b :: rest) :=
        hp.charsAt_seen (hp.not_prefix_of_unfit hfits)
      rw [hfeed, total_start]
      simp [total, held, Piece.char?, hnone]

/-- The end of the bytes completes no character. -/
theorem Scan.Sound.finish (hs : s.Sound) : s.finish.filterMap Piece.char? = s.total [] := by
  obtain ⟨found, pending⟩ := s
  cases pending with
  | none => simp [Scan.finish, total, held, charsAt_nil]
  | some p =>
    have hp := hs p rfl
    have hnone : charsAt (p.seen.reverse ++ []) = charsAt [] := by
      refine hp.charsAt_seen ?_
      rw [List.append_nil]
      exact hp.not_prefix_seen
    simp only [Scan.finish, total, held, Option.elim_some, hnone, charsAt_nil]
    simp [Piece.char?]

theorem Scan.Sound.finish_foldl (hs : s.Sound) (bytes : Bytes) :
    (bytes.foldl Scan.feed s).finish.filterMap Piece.char? = s.total bytes := by
  induction bytes generalizing s with
  | nil => exact hs.finish
  | cons b rest ih => rw [List.foldl_cons, ih (hs.feed b), hs.total_feed]

/-- The characters that are kept are those whose encodings stand in the bytes. -/
theorem dropBroken_eq_charsAt (bytes : Bytes) : dropBroken bytes = charsAt bytes := by
  have hstart : Scan.Sound ⟨[], none⟩ := by
    intro p hp
    cases hp
  rw [dropBroken_eq, pieces, hstart.finish_foldl]
  rfl

end Utf8

/-- Reading a file keeps, for each position of its bytes from the first to the last, the character
whose encoding stands there, if there is one, and nothing else; then it brings line ends to LF. -/
theorem Text.ofBytes_positions (bytes : Bytes) :
    (∀ i c, Utf8.charAt? bytes i = some c ↔ String.utf8EncodeChar c <+: bytes.drop i) ∧
      ofBytes bytes = String.ofList (Newline.unify
        ((List.range bytes.length).filterMap (Utf8.charAt? bytes))) := by
  refine ⟨fun i c => Utf8.charAt?_eq_some_iff, ?_⟩
  rw [ofBytes, charsOfBytes, Newline.fold_eq_unify, Utf8.dropBroken_eq_charsAt]
  rfl

/-- A character of four bytes that stops short before one of three, and a surrogate before CR LF. -/
example : Text.charsOfBytes [0xF0, 0x9F, 0x98, 0xE2, 0x82, 0xAC, 0xED, 0xA0, 0x80, 0x0D, 0x0A] =
    ['€', '\n'] := by
  decide

end SourceBundle
