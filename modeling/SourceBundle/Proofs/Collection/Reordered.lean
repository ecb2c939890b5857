import SourceBundle.Collection.Summary
import SourceBundle.Proofs.Collection.Selection

/-!
Collections that differ only in order. The order in which listings are taken moves files, and whole
subdirectories with them, but it brings nothing in and loses nothing. So whatever is counted over the
files of a collection is the same in both orders: how many there are, how large they are together, and
how long the document is, since each file gives one block and every two neighbours one empty line,
whichever they are.
-/

namespace SourceBundle

/-- The size of all texts of a list together, in bytes. -/
def totalSize (texts : List String) : Nat :=
  texts.foldr (fun text total => text.utf8ByteSize + total) 0

theorem totalSize_cons (text : String) (texts : List String) :
    totalSize (text :: texts) = text.utf8ByteSize + totalSize texts := rfl

theorem totalSize_of_perm {texts texts' : List String} (h : texts.Perm texts') :
    totalSize texts = totalSize texts' := by
  refine h.foldr_eq' ?_ 0
  intro text _ text' _ total
  exact Nat.add_left_comm _ _ _

/-- Joined texts are as long as the parts together, and a separator between every two neighbours. -/
theorem utf8ByteSize_intercalate (separator : String) (parts : List String) :
    (separator.intercalate parts).utf8ByteSize =
      totalSize parts + (parts.length - 1) * separator.utf8ByteSize := by
  induction parts with
  | nil => simp [totalSize]
  | cons first rest ih =>
    cases rest with
    | nil => simp [totalSize]
    | cons second rest =>
      rw [String.intercalate_cons_cons, String.utf8ByteSize_append, String.utf8ByteSize_append, ih]
      simp only [totalSize_cons, List.length_cons, Nat.add_sub_cancel]
      rw [Nat.add_mul, Nat.one_mul]
      omega

namespace Collection

variable {c c' : Collection}

/-- The size of the document: that of all blocks, and one byte between every two neighbours. -/
theorem utf8ByteSize_render (c : Collection) :
    c.render.utf8ByteSize = totalSize (c.files.map Entry.block) + (c.files.length - 1) := by
  have hnewline : "\n".utf8ByteSize = 1 := rfl
  rw [render, document, utf8ByteSize_intercalate, List.length_map, hnewline, Nat.mul_one]

theorem totalBytes_eq_totalSize (c : Collection) :
    c.totalBytes = totalSize (c.files.map (·.content)) := by
  rw [totalBytes, totalSize, List.foldr_map]

theorem totalBytes_of_perm (h : c.files.Perm c'.files) : c.totalBytes = c'.totalBytes := by
  rw [totalBytes_eq_totalSize, totalBytes_eq_totalSize, totalSize_of_perm (h.map _)]

theorem summary_of_perm (h : c.files.Perm c'.files) : c.summary = c'.summary := by
  unfold summary
  rw [h.length_eq, totalBytes_of_perm h]

theorem utf8ByteSize_render_of_perm (h : c.files.Perm c'.files) :
    c.render.utf8ByteSize = c'.render.utf8ByteSize := by
  rw [utf8ByteSize_render, utf8ByteSize_render, h.length_eq, totalSize_of_perm (h.map _)]

end Collection

/-- In the order of discovery and in sorted order the same files are collected and the same failures
told, all of them as often; so size, summary and length of the document are the same. -/
theorem World.collect_reordered (w : World) (rules : Rules) (root : Path) :
    (w.collect ⟨rules, .discovery⟩ root).files.Perm (w.collect ⟨rules, .sorted⟩ root).files ∧
      (w.collect ⟨rules, .discovery⟩ root).failures.Perm
        (w.collect ⟨rules, .sorted⟩ root).failures ∧
      (w.collect ⟨rules, .discovery⟩ root).totalBytes =
        (w.collect ⟨rules, .sorted⟩ root).totalBytes ∧
      (w.collect ⟨rules, .discovery⟩ root).summary = (w.collect ⟨rules, .sorted⟩ root).summary ∧
      (w.collect ⟨rules, .discovery⟩ root).render.utf8ByteSize =
        (w.collect ⟨rules, .sorted⟩ root).render.utf8ByteSize := by
  obtain ⟨hfiles, hfailures⟩ := w.collect_perm_order rules .discovery .sorted root
  exact ⟨hfiles, hfailures, Collection.totalBytes_of_perm hfiles,
    Collection.summary_of_perm hfiles, Collection.utf8ByteSize_render_of_perm hfiles⟩

end SourceBundle
