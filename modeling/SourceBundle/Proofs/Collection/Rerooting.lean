import SourceBundle.Proofs.Collection.Found

/-!
One tree walked twice. Two walks may come to the same tree by different paths, or be told of
different roots; as long as the system takes the paths of one as it takes those of the other and
every file gives the same to both, what is read off their visits is the same, in the same order.
-/

namespace SourceBundle

namespace World

variable {w : World} {config : Config} {root root' path path' : Path} {node : Node}
  {entries sub : Listing} {name : Name} {β : Type} {f g : Visit → Option β}

/-- Two walks of a directory that lists `entries`, one from `path` and seen from `root`, the other
from `path'` and seen from `root'`: the same directories can be listed, the same links lead to
directories, and what `f` reads off a look at a file in one walk `g` reads off it in the other. -/
structure Alike (w : World) (config : Config) (f g : Visit → Option β)
    (root path root' path' : Path) (entries : Listing) : Prop where
  taken : ∀ dirs sub, (Node.directory entries).at? dirs = some (.directory sub) →
    (∀ dir ∈ dirs, config.rules.exclusion.excludes (Utf8.replaceBroken dir) = false) →
    ((path.joinAll dirs).refusal? = none ↔ (path'.joinAll dirs).refusal? = none)
  ranked : ∀ dirs name node, (Node.directory entries).at? (dirs ++ [name]) = some node →
    node.isDirectory = false →
    (∀ dir ∈ dirs, config.rules.exclusion.excludes (Utf8.replaceBroken dir) = false) →
    w.ranksAsDirectory (path.joinAll (dirs ++ [name])) node =
      w.ranksAsDirectory (path'.joinAll (dirs ++ [name])) node
  looked : ∀ dirs name node, (Node.directory entries).at? (dirs ++ [name]) = some node →
    node.isDirectory = false →
    (∀ dir ∈ dirs, config.rules.exclusion.excludes (Utf8.replaceBroken dir) = false) →
    w.ranksAsDirectory (path.joinAll (dirs ++ [name])) node = false →
    f (w.visitFile config.rules root (path.joinAll (dirs ++ [name])) name) =
      g (w.visitFile config.rules root' (path'.joinAll (dirs ++ [name])) name)

/-- Walks that are alike are alike below a subdirectory. -/
theorem Alike.inside (h : w.Alike config f g root path root' path' entries)
    (hfind : Listing.find? entries name = some (.directory sub))
    (hkept : config.rules.exclusion.excludes (Utf8.replaceBroken name) = false) :
    w.Alike config f g root (path.join name) root' (path'.join name) sub := by
  have hat : ∀ {names found}, (Node.directory sub).at? names = some found →
      (Node.directory entries).at? (name :: names) = some found := by
    intro names found hat
    rwa [Node.at?_cons hfind]
  refine ⟨?_, ?_, ?_⟩
  · intro dirs found hfound hdirs
    exact h.taken (name :: dirs) found (hat hfound) (List.forall_mem_cons.2 ⟨hkept, hdirs⟩)
  · intro dirs last node hfound hleaf hdirs
    exact h.ranked (name :: dirs) last node (hat hfound) hleaf
      (List.forall_mem_cons.2 ⟨hkept, hdirs⟩)
  · intro dirs last node hfound hleaf hdirs
    exact h.looked (name :: dirs) last node (hat hfound) hleaf
      (List.forall_mem_cons.2 ⟨hkept, hdirs⟩)

/-- Whether nothing is read off the visits that are not to a file. -/
structure Visit.Silent (f : Visit → Option β) : Prop where
  pruned : ∀ path, f (.pruned path) = none
  unlisted : ∀ path cause, f (.unlisted path cause) = none

/-- What is read off two walks that are alike is the same. -/
theorem filterMap_descend_congr (node : Node) (hf : Visit.Silent f) (hg : Visit.Silent g)
    (hvalid : node.Valid)
    (h : w.Alike config f g root path root' path' node.entries) :
    (w.descend config root path node.entries).filterMap f =
      (w.descend config root' path' node.entries).filterMap g := by
  induction node using Node.induct generalizing path path' with
  | leaf node hleaf => rw [Node.entries_of_not_directory hleaf, descend_nil, descend_nil]; rfl
  | directory entries ih =>
    obtain ⟨hlisting, htrees⟩ := Node.valid_directory_iff.1 hvalid
    have hfind : ∀ e ∈ entries.inOrder config.order, Listing.find? entries e.1 = some e.2 := by
      intro e he
      exact Listing.find?_of_mem hlisting.nodup (Listing.mem_inOrder.1 he)
    have hat : ∀ e ∈ entries.inOrder config.order,
        (Node.directory entries).at? ([] ++ [e.1]) = some e.2 := by
      intro e he
      exact (Node.at?_single _ e.1).trans (hfind e he)
    have hranks : ∀ e ∈ entries.inOrder config.order,
        (!w.ranksAsDirectory (path.join e.1) e.2) = !w.ranksAsDirectory (path'.join e.1) e.2 := by
      intro e he
      cases hdir : e.2.isDirectory with
      | true => rw [Node.eq_directory hdir]; rfl
      | false => exact congrArg not (h.ranked [] e.1 e.2 (hat e he) hdir (by simp))
    simp only [descend_eq, List.filterMap_append, List.filterMap_map, List.filterMap_flatMap,
      Node.entries]
    congr 1
    · -- the files of the directory
      rw [← List.filter_congr hranks]
      refine List.filterMap_congr ?_
      intro e he
      obtain ⟨he, hrank⟩ := List.mem_filter.1 he
      rw [Bool.not_eq_true'] at hrank
      obtain ⟨hleaf, -⟩ := ranksAsDirectory_eq_false_iff.1 hrank
      exact h.looked [] e.1 e.2 (hat e he) hleaf (by simp) hrank
    · -- the subdirectories
      refine List.flatMap_congr ?_
      intro e he
      obtain ⟨he, hdir⟩ := List.mem_filter.1 he
      have hdirectory := Node.eq_directory hdir
      rw [hdirectory, visits_branch_directory, visits_branch_directory]
      cases hkept : config.rules.exclusion.excludes (Utf8.replaceBroken e.1) with
      | true => simp [hf.pruned, hg.pruned]
      | false =>
        have htaken := h.taken [e.1] e.2.entries (by rw [← hdirectory]; exact hat e he)
          (by simpa using hkept)
        rw [Path.joinAll_cons, Path.joinAll_nil, Path.joinAll_cons, Path.joinAll_nil] at htaken
        have hbelow := ih e (Listing.mem_inOrder.1 he) (htrees e (Listing.mem_inOrder.1 he))
          (h.inside (by rw [← hdirectory]; exact hfind e he) hkept)
        cases hrefusal : (path.join e.1).refusal? with
        | none => simpa [htaken.1 hrefusal] using hbelow
        | some cause =>
          cases hrefusal' : (path'.join e.1).refusal? with
          | none => rw [htaken.2 hrefusal'] at hrefusal; cases hrefusal
          | some cause' => simp [hf.unlisted, hg.unlisted]

theorem silent_entries : Visit.Silent Visit.entry? := ⟨fun _ => rfl, fun _ _ => rfl⟩

theorem silent_failures : Visit.Silent Visit.failure? := ⟨fun _ => rfl, fun _ _ => rfl⟩

/-- What is made of what is silent is silent. -/
theorem Visit.Silent.map {γ : Type} (hf : Visit.Silent f) (make : β → γ) :
    Visit.Silent fun v => (f v).map make :=
  ⟨fun path => by rw [hf.pruned]; rfl, fun path cause => by rw [hf.unlisted]; rfl⟩

end World

end SourceBundle
