import Mathlib.Data.List.Basic
import SourceBundle.Path.Relative

/-!
The names that a path spells. They are what stands between its slashes, so they hold no slash and no
byte that the path does not hold. The last of them, unless it is made of dots, is the name of the file
that the path is for.
-/

namespace SourceBundle

/-- What a list is split into holds no separator and nothing that the list does not hold. -/
theorem mem_splitOn {α : Type} [BEq α] [LawfulBEq α] {sep : α} {whole segment : List α}
    (h : segment ∈ whole.splitOn sep) : sep ∉ segment ∧ ∀ b ∈ segment, b ∈ whole := by
  induction whole generalizing segment with
  | nil =>
    obtain rfl : segment = [] := by simpa using h
    simp
  | cons b rest ih =>
    obtain ⟨first, more, hsplit⟩ := List.exists_cons_of_ne_nil (List.splitOn_ne_nil sep rest)
    rw [List.splitOn_cons_eq_if_modifyHead, hsplit] at h
    rw [hsplit] at ih
    have hin : ∀ {s}, s ∈ first :: more → ∀ c ∈ s, c ∈ b :: rest := by
      intro s hs c hc
      exact List.mem_cons_of_mem b ((ih hs).2 c hc)
    split at h
    · rcases List.mem_cons.1 h with rfl | hrest
      · simp
      · exact ⟨(ih hrest).1, hin hrest⟩
    · next hb =>
      rcases List.mem_cons.1 h with rfl | hrest
      · obtain ⟨hfirst, -⟩ := ih (List.mem_cons_self ..)
        refine ⟨?_, ?_⟩
        · rw [List.mem_cons, not_or]
          exact ⟨fun heq => hb (by simp [heq]), hfirst⟩
        · intro c hc
          rcases List.mem_cons.1 hc with rfl | hc
          · exact List.mem_cons_self ..
          · exact hin (List.mem_cons_self ..) c hc
      · exact ⟨(ih (List.mem_cons_of_mem first hrest)).1, hin (List.mem_cons_of_mem first hrest)⟩

namespace Path

variable {p : Path} {name : Bytes}

/-- A name that a path spells is not empty and holds no slash, and its bytes are the path's. -/
theorem mem_steps (h : name ∈ p.steps) :
    name ≠ [] ∧ Bytes.slash ∉ name ∧ ∀ b ∈ name, b ∈ p.bytes := by
  obtain ⟨hmem, hne⟩ := List.mem_filter.1 h
  obtain ⟨hslash, hbytes⟩ := mem_splitOn hmem
  exact ⟨by simpa using hne, hslash, hbytes⟩

/-- The name of the file that a path is for: its last component, unless that is a step up or the
root. -/
def fileName? (p : Path) : Option Bytes :=
  match p.components.getLast? with
  | some (.name bytes) => some bytes
  | _ => none

/-- Only names that are walked make components. -/
theorem filterMap_segments (p : Path) :
    p.segments.filterMap Component.ofSegment? = p.steps.filterMap Component.ofSegment? := by
  rw [steps, List.filterMap_filter]
  refine List.filterMap_congr ?_
  intro segment _
  cases segment with
  | nil => rfl
  | cons b rest => rfl

/-- A component that a segment stands for is the last of all where it is the last of these. -/
theorem getLast?_components {c : Component}
    (h : ∃ body, p.segments.filterMap Component.ofSegment? = body ++ [c]) :
    p.components.getLast? = some c := by
  obtain ⟨body, hbody⟩ := h
  unfold components
  simp only [hbody]
  split
  · rw [← List.cons_append, List.getLast?_concat]
  · split
    · rw [← List.cons_append, List.getLast?_concat]
    · rw [List.getLast?_concat]

/-- The last name that a path walks, when it is none of dots, is the name of its file. -/
theorem fileName?_of_steps (h : p.steps.getLast? = some name) (hdot : name ≠ Bytes.dot)
    (hdotDot : name ≠ Bytes.dotDot) : p.fileName? = some name := by
  obtain ⟨front, hfront⟩ := List.getLast?_eq_some_iff.1 h
  obtain ⟨hne, -, -⟩ := mem_steps (List.mem_of_getLast? h)
  have hlast : p.components.getLast? = some (.name name) := by
    refine getLast?_components ⟨front.filterMap Component.ofSegment?, ?_⟩
    rw [filterMap_segments, hfront, List.filterMap_append]
    simp [Component.ofSegment?, hne, hdot, hdotDot]
  rw [fileName?, hlast]

end Path

end SourceBundle
