import Mathlib.Data.List.Flatten
import SourceBundle.Proofs.Collection.Grown

/-!
Rules made narrower. Rules that select less and leave out more make a walk skip files and whole
directories, and change nothing else of it: every listing is taken in the same order, every file is
read with the same result. So what the narrower rules collect is what the wider ones collect with some
of it struck out, in either order of traversal, at every depth.
-/

namespace SourceBundle

/-- Rules that select nothing that others do not select, and leave out all that those leave out. -/
structure Rules.Narrower (a b : Rules) : Prop where
  extensions : a.inclusion.extensions ⊆ b.inclusion.extensions
  filenames : a.inclusion.filenames ⊆ b.inclusion.filenames
  directories : b.exclusion.directories ⊆ a.exclusion.directories

namespace Rules.Narrower

variable {a b : Rules} {name : String}

/-- What the narrower rules select the wider ones select. -/
theorem selects (h : a.Narrower b) (hselects : a.inclusion.selects name = true) :
    b.inclusion.selects name = true := by
  simp only [Inclusion.selects, Bool.or_eq_true, List.contains_iff_mem] at hselects ⊢
  exact hselects.imp (fun hext => h.extensions hext) fun hname => h.filenames hname

/-- What the wider rules leave out the narrower ones leave out. -/
theorem excludes (h : a.Narrower b) (hexcludes : b.exclusion.excludes name = true) :
    a.exclusion.excludes name = true := by
  simp only [Exclusion.excludes, List.contains_iff_mem] at hexcludes ⊢
  exact h.directories hexcludes

end Rules.Narrower

namespace World

variable {w : World} {a b : Rules} {order : Order} {root path : Path} {name : Name} {node : Node}
  {β : Type} {f : Visit → Option β}

/-- A look at a file by narrower rules gives what a look by the wider ones gives, or nothing. -/
theorem sublist_visitFile (h : a.Narrower b) (hf : Visit.Selective f) :
    (f (w.visitFile a root path name)).toList.Sublist
      (f (w.visitFile b root path name)).toList := by
  by_cases hselects : a.inclusion.selects (Utf8.replaceBroken name) = true
  · -- both select the file, and what is read does not depend on the rules
    have hsame : w.visitFile a root path name = w.visitFile b root path name := by
      rw [visitFile, visitFile, if_pos hselects, if_pos (h.selects hselects)]
    rw [hsame]
  · have hnone : w.visitFile a root path name = .unselected path := if_neg hselects
    rw [hnone, hf.unselected]
    exact List.nil_sublist _

/-- What is read off a directory's visits by narrower rules is part of what is read off them by the
wider ones, when the same holds below it. -/
theorem sublist_visits (h : a.Narrower b) (hf : Visit.Selective f) (hdir : node.isDirectory = true)
    (hbelow : ((w.descend ⟨a, order⟩ root path node.entries).filterMap f).Sublist
      ((w.descend ⟨b, order⟩ root path node.entries).filterMap f)) :
    ((w.branch ⟨a, order⟩ root path name node).visits.filterMap f).Sublist
      ((w.branch ⟨b, order⟩ root path name node).visits.filterMap f) := by
  rw [Node.eq_directory hdir, visits_branch_directory, visits_branch_directory]
  by_cases hexcluded : a.exclusion.excludes (Utf8.replaceBroken name) = true
  · rw [if_pos hexcluded]
    simp [hf.pruned]
  · have hkept : ¬ b.exclusion.excludes (Utf8.replaceBroken name) = true :=
      fun hexcludes => hexcluded (h.excludes hexcludes)
    rw [if_neg hexcluded, if_neg hkept]
    cases path.refusal? with
    | some cause => exact List.Sublist.refl _
    | none => exact hbelow

/-- What is read off a walk by narrower rules is part of what is read off it by the wider ones. -/
theorem sublist_descend (h : a.Narrower b) (hf : Visit.Selective f) (order : Order)
    (root path : Path) (node : Node) :
    ((w.descend ⟨a, order⟩ root path node.entries).filterMap f).Sublist
      ((w.descend ⟨b, order⟩ root path node.entries).filterMap f) := by
  induction node using Node.induct generalizing path with
  | leaf node hleaf => simp [Node.entries_of_not_directory hleaf, descend_nil]
  | directory entries ih =>
    simp only [descend_eq, List.filterMap_append, List.filterMap_map, List.filterMap_flatMap,
      Node.entries]
    refine List.Sublist.append ?_ ?_
    · -- the files of the directory
      rw [List.filterMap_eq_flatMap_toList, List.filterMap_eq_flatMap_toList]
      exact List.Sublist.flatMap_right _ fun e _ => sublist_visitFile h hf
    · -- the subdirectories
      refine List.Sublist.flatMap_right _ ?_
      intro e he
      obtain ⟨hmem, hdir⟩ := List.mem_filter.1 he
      exact sublist_visits h hf hdir (ih e (Listing.mem_inOrder.1 hmem) (path.join e.1))

/-- What narrower rules collect is part of what wider rules collect, in the same order, and so is what
they fail to read. -/
theorem collect_narrower (w : World) (order : Order) (root : Path) (h : a.Narrower b) :
    (w.collect ⟨a, order⟩ root).files.Sublist (w.collect ⟨b, order⟩ root).files ∧
      (w.collect ⟨a, order⟩ root).failures.Sublist (w.collect ⟨b, order⟩ root).failures := by
  cases hdir : w.isDirectory root with
  | false =>
    rw [collect_of_not_directory hdir, collect_of_not_directory hdir]
    exact ⟨List.Sublist.refl _, List.Sublist.refl _⟩
  | true =>
    obtain ⟨place, entries, hroot⟩ := isDirectory_iff.1 hdir
    rw [collect_of_follow hroot, collect_of_follow hroot]
    exact ⟨sublist_descend h ⟨fun _ => rfl, fun _ => rfl⟩ order root root (.directory entries),
      sublist_descend h ⟨fun _ => rfl, fun _ => rfl⟩ order root root (.directory entries)⟩

/-- Of the project on the small disk, rules for C sources alone that leave out `a` collect part of
what the built-in rules collect, and fail to read part of what those fail to read. -/
theorem collect_narrower_sample :
    let a : Rules := ⟨⟨[".c"], []⟩, ⟨"a" :: Rules.builtin.exclusion.directories⟩⟩
    a.Narrower .builtin ∧
      (sample.collect ⟨a, .sorted⟩ ⟨[0x2F, 0x70]⟩).files.Sublist
        (sample.collect ⟨.builtin, .sorted⟩ ⟨[0x2F, 0x70]⟩).files ∧
      (sample.collect ⟨a, .sorted⟩ ⟨[0x2F, 0x70]⟩).failures.Sublist
        (sample.collect ⟨.builtin, .sorted⟩ ⟨[0x2F, 0x70]⟩).failures := by
  intro a
  have hnarrower : a.Narrower .builtin :=
    ⟨by decide, List.nil_subset _, List.subset_cons_self _ _⟩
  exact ⟨hnarrower, collect_narrower sample .sorted ⟨[0x2F, 0x70]⟩ hnarrower⟩

end World

end SourceBundle
