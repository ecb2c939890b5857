import SourceBundle.Proofs.Path.Steps
import SourceBundle.Proofs.Text.Pieces

/-!
Texts that spell paths. Only a slash is written with the byte of a slash, so a text falls into segments as
the path that it spells does, and different segments of the text are different in the path. The file name
of a path is its last segment that is neither empty nor a single dot, unless that is the step upwards.
-/

namespace SourceBundle

namespace Utf8

theorem slash_notMem_flatMap {chars : List Char} (h : '/' ∉ chars) :
    Bytes.slash ∉ chars.flatMap String.utf8EncodeChar := by
  rw [List.mem_flatMap]
  rintro ⟨c, hc, hslash⟩
  obtain rfl : c = '/' := (mem_utf8EncodeChar_iff (by decide)).1 hslash
  exact h hc

end Utf8

/-- What is put for each member of joined lists is joined as they are. -/
theorem flatMap_intercalate {α β : Type} (f : α → List β) (sep : α) (parts : List (List α)) :
    ([sep].intercalate parts).flatMap f = (f sep).intercalate (parts.map (·.flatMap f)) := by
  induction parts with
  | nil => rfl
  | cons first rest ih =>
    cases rest with
    | nil => simp
    | cons second rest =>
      rw [List.intercalate_cons_cons, List.flatMap_append, List.flatMap_append, ih]
      simp [List.intercalate_cons_cons]

namespace Path

variable {p : Path} {front back : List Bytes} {last : Bytes}

/-- The segments of a text are those of the path that it spells. -/
theorem segments_ofString (s : String) :
    (ofString s).segments = (s.toList.splitOn '/').map (·.flatMap String.utf8EncodeChar) := by
  have hslash : ∀ segment ∈ (s.toList.splitOn '/').map (·.flatMap String.utf8EncodeChar),
      Bytes.slash ∉ segment := by
    intro segment hsegment
    obtain ⟨chars, hchars, rfl⟩ := List.mem_map.1 hsegment
    exact Utf8.slash_notMem_flatMap (mem_splitOn hchars).1
  have hne : (s.toList.splitOn '/').map (·.flatMap String.utf8EncodeChar) ≠ [] := by
    simp [List.splitOn_ne_nil]
  rw [← List.splitOn_intercalate Bytes.slash hslash hne, segments, ofString, Bytes.ofString]
  conv_lhs => rw [← @List.intercalate_splitOn _ s.toList _ _ '/', flatMap_intercalate]
  rfl

/-- Empty segments and single dots stand for no component. -/
theorem filterMap_eq_nil {segments : List Bytes}
    (h : ∀ segment ∈ segments, segment = [] ∨ segment = Bytes.dot) :
    segments.filterMap Component.ofSegment? = [] :=
  List.filterMap_eq_nil_iff.2 fun segment hsegment => if_pos (h segment hsegment)

theorem fileName?_of_segments (h : p.segments = front ++ last :: back) (hne : last ≠ [])
    (hdot : last ≠ Bytes.dot) (hback : ∀ segment ∈ back, segment = [] ∨ segment = Bytes.dot) :
    p.fileName? = if last = Bytes.dotDot then none else some last := by
  have hsegment : Component.ofSegment? last =
      some (if last = Bytes.dotDot then .up else .name last) := by
    rw [Component.ofSegment?, if_neg (not_or.2 ⟨hne, hdot⟩), apply_ite some]
  have hlast : p.components.getLast? = Component.ofSegment? last := by
    rw [hsegment]
    refine getLast?_components ⟨front.filterMap Component.ofSegment?, ?_⟩
    rw [h, List.filterMap_append, List.filterMap_cons, hsegment, filterMap_eq_nil hback]
  rw [fileName?, hlast, hsegment]
  by_cases hup : last = Bytes.dotDot
  · rw [if_pos hup, if_pos hup]
  · rw [if_neg hup, if_neg hup]

theorem fileName?_eq_none (h : ∀ segment ∈ p.segments, segment = [] ∨ segment = Bytes.dot) :
    p.fileName? = none := by
  have hcomponents : p.components = [.root] ∨ p.components = [.here] ∨ p.components = [] := by
    unfold components
    simp only [filterMap_eq_nil h]
    split
    · exact .inl rfl
    · split
      · exact .inr (.inl rfl)
      · exact .inr (.inr rfl)
  rw [fileName?]
  rcases hcomponents with h | h | h <;> rw [h] <;> rfl

end Path

end SourceBundle
