import SourceBundle.Project
import SourceBundle.Proofs.Text.Pieces

/-!
The tilde at the start of a given path. It is replaced in the text under which the path is shown, and
for a path that is UTF-8 this comes to replacing the byte: a tilde and a slash are one byte each, and
no other character begins with theirs. A path without a leading tilde is left as it is shown.
-/

namespace SourceBundle

namespace Utf8

variable {c : Char} {b : UInt8} {chars : List Char}

/-- Only the character that is written as one ASCII byte begins with that byte. -/
theorem head?_utf8EncodeChar_iff (hb : b.toNat < 0x80) :
    (String.utf8EncodeChar c).head? = some b ↔ c = Char.ofNat b.toNat := by
  constructor
  · intro h
    exact (mem_utf8EncodeChar_iff hb).1 (List.mem_of_head? h)
  · rintro rfl
    rw [utf8EncodeChar_one hb]
    rfl

theorem head?_flatMap_utf8EncodeChar_iff (hb : b.toNat < 0x80) :
    (chars.flatMap String.utf8EncodeChar).head? = some b ↔
      chars.head? = some (Char.ofNat b.toNat) := by
  cases chars with
  | nil => simp
  | cons c rest =>
    rw [List.flatMap_cons, List.head?_append_of_ne_nil _ String.utf8EncodeChar_ne_nil,
      head?_utf8EncodeChar_iff hb, List.head?_cons, Option.some.injEq]

end Utf8

namespace Path

variable {p : Path} {home text : String}

/-- A path with its leading tilde replaced by the home directory, byte for byte; the tilde must stand
alone or before a slash. -/
def fromHome (home : String) (p : Path) : Path :=
  match p.bytes with
  | 0x7E :: rest =>
    if rest = [] ∨ rest.head? = some Bytes.slash then ⟨Bytes.ofString home ++ rest⟩ else p
  | _ => p

theorem fromHome_of_head? (h : p.bytes.head? ≠ some 0x7E) : p.fromHome home = p := by
  unfold fromHome
  split
  · next rest hrest => exact absurd (by rw [hrest]; rfl) h
  · rfl

/-- The tilde of a text is the tilde of the path that it spells. -/
theorem ofString_expandTilde (home text : String) :
    ofString (expandTilde home text) = (ofString text).fromHome home := by
  by_cases htilde : text.toList.head? = some '~'
  · obtain ⟨rest, hrest⟩ := List.head?_eq_some_iff.1 htilde
    have hbytes : (ofString text).bytes = 0x7E :: rest.flatMap String.utf8EncodeChar := by
      rw [ofString, Bytes.ofString, hrest]
      rfl
    have hslash : (rest.flatMap String.utf8EncodeChar).head? = some Bytes.slash ↔
        rest.head? = some '/' := Utf8.head?_flatMap_utf8EncodeChar_iff (by decide)
    unfold expandTilde fromHome
    rw [hrest, hbytes]
    simp only [Utf8.flatMap_utf8EncodeChar_eq_nil_iff, hslash]
    split
    · simp [ofString, Bytes.ofString]
    · rfl
  · have hbytes : (ofString text).bytes.head? ≠ some 0x7E := by
      rw [ofString, Bytes.ofString]
      exact mt (Utf8.head?_flatMap_utf8EncodeChar_iff (by decide)).1 htilde
    rw [fromHome_of_head? hbytes, expandTilde]
    split
    · next rest hrest => exact absurd (by rw [hrest]; rfl) htilde
    · rfl

/-- A path that is UTF-8 is what the text under which it is shown spells. -/
theorem ofString_shown_iff : ofString p.shown = p ↔ Utf8.isWellFormed p.bytes = true := by
  rw [Utf8.isWellFormed_iff, Path.shown]
  constructor
  · intro h
    exact congrArg Path.bytes h
  · intro h
    exact congrArg Path.mk h

/-- A path is shown with a leading tilde only when it has one. -/
theorem head?_ofString_shown (h : p.bytes.head? ≠ some 0x7E) :
    (ofString p.shown).bytes.head? ≠ some 0x7E := by
  intro htilde
  rw [ofString, Bytes.ofString, Utf8.head?_flatMap_utf8EncodeChar_iff (by decide), shown,
    Utf8.toList_replaceBroken, List.head?_map] at htilde
  obtain ⟨piece, hpiece, hshown⟩ := Option.map_eq_some_iff.1 htilde
  obtain ⟨rest, hrest⟩ := List.head?_eq_some_iff.1 hpiece
  cases piece with
  | char c =>
    obtain rfl : c = '~' := hshown
    have hbytes := Utf8.flatMap_bytes_pieces p.bytes
    rw [hrest] at hbytes
    exact h (by rw [← hbytes]; rfl)
  | broken run => cases hshown

end Path

namespace World

variable {w : World} {p : Path}

theorem expand_eq_fromHome (w : World) (p : Path) :
    w.expand p = (Path.ofString p.shown).fromHome w.home :=
  Path.ofString_expandTilde w.home p.shown

/-- In a path that is UTF-8 the tilde is replaced and nothing else. -/
theorem expand_of_isWellFormed (h : Utf8.isWellFormed p.bytes = true) :
    w.expand p = p.fromHome w.home := by
  rw [expand_eq_fromHome, Path.ofString_shown_iff.2 h]

/-- Without a tilde a path is taken as it is shown. -/
theorem expand_of_head? (h : p.bytes.head? ≠ some 0x7E) : w.expand p = .ofString p.shown := by
  rw [expand_eq_fromHome, Path.fromHome_of_head? (Path.head?_ofString_shown h)]

end World

end SourceBundle
