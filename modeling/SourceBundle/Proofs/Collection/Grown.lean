import SourceBundle.Proofs.Collection.Ordered

/-!
A tree walked before and after it grew. What is new are directories, and files that no rule selects;
everything else stands as it stood and reads as it read. In a sorted walk the new entries stand among
the old ones without changing their order, and as they give nothing themselves, what is read off the
visits is the same. Only a new directory that cannot be listed would show.
-/

namespace SourceBundle

/-- Sorted by their names, the entries that a listing had before it grew stand in the order in which they
stood. -/
theorem Listing.Valid.names_inOrder {entries entries' : Listing} (h : Valid entries)
    (h' : Valid entries')
    (hkept : ∀ name node, find? entries name = some node →
      ∃ node', find? entries' name = some node') :
    ((entries'.inOrder .sorted).filter fun e => (find? entries e.1).isSome).map Prod.fst =
      (entries.inOrder .sorted).map Prod.fst := by
  have hpairs := (h'.pairwise_inOrder.filter fun e => (find? entries e.1).isSome).map (f := Prod.fst)
    (S := fun a b : Name => a ≠ b ∧ Bytes.le a b = true) fun _ _ hab => hab
  have hpairs' := h.pairwise_inOrder.map (f := Prod.fst)
    (S := fun a b : Name => a ≠ b ∧ Bytes.le a b = true) fun _ _ hab => hab
  have hmem : ∀ name,
      name ∈ ((entries'.inOrder .sorted).filter fun e => (find? entries e.1).isSome).map Prod.fst ↔
        name ∈ (entries.inOrder .sorted).map Prod.fst := by
    intro name
    simp only [List.mem_map, List.mem_filter, mem_inOrder]
    constructor
    · rintro ⟨e, ⟨-, hold⟩, rfl⟩
      obtain ⟨node, hnode⟩ := Option.isSome_iff_exists.1 hold
      exact ⟨(e.1, node), mem_of_find? hnode, rfl⟩
    · rintro ⟨e, he, rfl⟩
      have hnode := find?_of_mem h.nodup he
      obtain ⟨node', hnode'⟩ := hkept e.1 e.2 hnode
      exact ⟨(e.1, node'), ⟨mem_of_find? hnode', Option.isSome_iff_exists.2 ⟨_, hnode⟩⟩, rfl⟩
  refine eq_of_pairwise_of_mem_iff ?_ hpairs hpairs' hmem
  rintro a - b - hab hba
  exact hab.1 (Bytes.le_antisymm hab.2 hba.2)

/-- Sorted by their names, the entries of a listing that grew give what they gave, when those that
are new give nothing. -/
theorem Listing.Valid.flatMap_inOrder {β : Type} {entries entries' : Listing}
    {give give' : Name × Node → List β} (h : Valid entries) (h' : Valid entries')
    (hkept : ∀ name node, find? entries name = some node →
      ∃ node', find? entries' name = some node' ∧ give' (name, node') = give (name, node))
    (hnew : ∀ name node', find? entries' name = some node' → find? entries name = none →
      give' (name, node') = []) :
    (entries'.inOrder .sorted).flatMap give' = (entries.inOrder .sorted).flatMap give := by
  have hfind : ∀ e ∈ entries.inOrder .sorted, find? entries e.1 = some e.2 := by
    intro e he
    exact find?_of_mem h.nodup (mem_inOrder.1 he)
  have hfind' : ∀ e ∈ entries'.inOrder .sorted, find? entries' e.1 = some e.2 := by
    intro e he
    exact find?_of_mem h'.nodup (mem_inOrder.1 he)
  -- what an old entry gives, told by its name alone
  let told (name : Name) : List β := (find? entries name).elim [] fun node => give (name, node)
  let old (e : Name × Node) : Bool := (find? entries e.1).isSome
  have hnames : ((entries'.inOrder .sorted).filter old).map Prod.fst =
      (entries.inOrder .sorted).map Prod.fst := by
    refine h.names_inOrder h' ?_
    intro name node hnode
    obtain ⟨node', hnode', -⟩ := hkept name node hnode
    exact ⟨node', hnode'⟩
  calc (entries'.inOrder .sorted).flatMap give'
      = ((entries'.inOrder .sorted).filter old).flatMap give' := by
        rw [← flatMap_filter_of_nil (p := fun _ => true) (q := old) (fun _ _ _ => rfl),
          List.filter_true]
        intro e he _ hold
        exact hnew e.1 e.2 (hfind' e he) (by simpa [old] using hold)
    _ = (((entries'.inOrder .sorted).filter old).map Prod.fst).flatMap told := by
        rw [List.flatMap_map]
        refine List.flatMap_congr ?_
        intro e he
        obtain ⟨he, hold⟩ := List.mem_filter.1 he
        obtain ⟨node, hnode⟩ := Option.isSome_iff_exists.1 hold
        obtain ⟨node', hnode', hgive⟩ := hkept e.1 node hnode
        obtain rfl : e.2 = node' := by
          rw [hfind' e he] at hnode'
          exact Option.some.inj hnode'
        simpa [told, hnode] using hgive
    _ = (entries.inOrder .sorted).flatMap give := by
        rw [hnames, List.flatMap_map]
        refine List.flatMap_congr ?_
        intro e he
        simp [told, hfind e he]

/-- What is read off the visits of some members of a list, member by member. -/
theorem filterMap_flatMap_filter {α β γ : Type} (p : α → Bool) (visits : α → List γ)
    (f : γ → Option β) (l : List α) :
    ((l.filter p).flatMap visits).filterMap f =
      l.flatMap fun a => if p a then (visits a).filterMap f else [] := by
  induction l with
  | nil => rfl
  | cons a l ih =>
    rw [List.filter_cons]
    cases hp : p a with
    | true => simp [hp, ih]
    | false => simp [hp, ih]

namespace World

variable {w w' : World} {config : Config} {root path : Path} {node node' child child' : Node}
  {entries : Listing} {name : Name} {β : Type} {f : Visit → Option β}

/-- Whether nothing is read off the visits to what is not selected. -/
structure Visit.Selective (f : Visit → Option β) : Prop where
  pruned : ∀ path, f (.pruned path) = none
  unselected : ∀ path, f (.unselected path) = none

/-- The tree `node` at `path`, walked in the world `w`, and the tree that it grew into, walked in the
world `w'`: what stood stands, what is new are directories and files that are not selected, and `f`
reads nothing off a new directory that cannot be listed, where the one above it can. -/
structure Grown (w w' : World) (config : Config) (f : Visit → Option β) (path : Path)
    (node node' : Node) : Prop where
  kept : ∀ names found, node.at? names = some found →
    ∃ found', node'.at? names = some found' ∧ found'.isDirectory = found.isDirectory
  same : ∀ dirs name found', node'.at? (dirs ++ [name]) = some found' →
    found'.isDirectory = false →
    config.rules.inclusion.selects (Utf8.replaceBroken name) = true →
    node.at? (dirs ++ [name]) = some found'
  unlinked : ∀ names target, node.at? names ≠ some (.link target)
  unlinked' : ∀ names target, node'.at? names ≠ some (.link target)
  read : ∀ names found, names ≠ [] → node.at? names = some found → found.isDirectory = false →
    node'.at? names = some found → w'.read (path.joinAll names) = w.read (path.joinAll names)
  fresh : ∀ names sub cause, node'.at? names = some (.directory sub) → node.at? names = none →
    (∀ name ∈ names, config.rules.exclusion.excludes (Utf8.replaceBroken name) = false) →
    (path.joinAll names.dropLast).refusal? = none →
    (path.joinAll names).refusal? = some cause → f (.unlisted (path.joinAll names) cause) = none

/-- Below a directory that stood, the tree grew as the whole did. -/
theorem Grown.inside (h : w.Grown w' config f path node node')
    (hfind : Listing.find? node.entries name = some child)
    (hfind' : Listing.find? node'.entries name = some child')
    (hkept : config.rules.exclusion.excludes (Utf8.replaceBroken name) = false) :
    w.Grown w' config f (path.join name) child child' := by
  have hat : ∀ names, node.at? (name :: names) = child.at? names := by
    intro names
    rw [Node.at?, hfind]
    rfl
  have hat' : ∀ names, node'.at? (name :: names) = child'.at? names := by
    intro names
    rw [Node.at?, hfind']
    rfl
  refine ⟨?_, ?_, ?_, ?_, ?_, ?_⟩
  · intro names found hfound
    rw [← hat']
    exact h.kept (name :: names) found ((hat names).trans hfound)
  · intro dirs last found' hfound hleaf hselected
    rw [← hat]
    exact h.same (name :: dirs) last found' ((hat' _).trans hfound) hleaf hselected
  · intro names target
    rw [← hat]
    exact h.unlinked _ target
  · intro names target
    rw [← hat']
    exact h.unlinked' _ target
  · intro names found _ hfound hleaf hfound'
    exact h.read (name :: names) found (List.cons_ne_nil _ _) ((hat names).trans hfound) hleaf
      ((hat' names).trans hfound')
  · intro names sub cause hsub hnone hnames habove
    have hne : names ≠ [] := by
      rintro rfl
      cases hnone
    refine h.fresh (name :: names) sub cause ((hat' names).trans hsub) ((hat names).trans hnone)
      (List.forall_mem_cons.2 ⟨hkept, hnames⟩) ?_
    rw [List.dropLast_cons_of_ne_nil hne]
    exact habove

/-- A directory that is new grew from one that lists nothing. -/
theorem Grown.anew (h : w.Grown w' config f path node node')
    (hnone : Listing.find? node.entries name = none)
    (hfind' : Listing.find? node'.entries name = some child') (hdirectory : child'.isDirectory = true)
    (hkept : config.rules.exclusion.excludes (Utf8.replaceBroken name) = false) :
    w.Grown w' config f (path.join name) (.directory []) child' := by
  have hat : ∀ names, node.at? (name :: names) = none := by
    intro names
    rw [Node.at?, hnone]
    rfl
  have hat' : ∀ names, node'.at? (name :: names) = child'.at? names := by
    intro names
    rw [Node.at?, hfind']
    rfl
  have hempty : ∀ names found, (Node.directory []).at? names = some found →
      names = [] ∧ found = .directory [] := by
    intro names found hfound
    cases names with
    | nil => exact ⟨rfl, (Option.some.inj hfound).symm⟩
    | cons first rest => cases hfound
  refine ⟨?_, ?_, ?_, ?_, ?_, ?_⟩
  · intro names found hfound
    obtain ⟨rfl, rfl⟩ := hempty names found hfound
    exact ⟨child', rfl, hdirectory⟩
  · intro dirs last found' hfound hleaf hselected
    have hsame := h.same (name :: dirs) last found' ((hat' _).trans hfound) hleaf hselected
    rw [List.cons_append, hat] at hsame
    cases hsame
  · intro names target hlink
    cases (hempty names _ hlink).2
  · intro names target
    rw [← hat']
    exact h.unlinked' _ target
  · intro names found hne hfound
    exact absurd (hempty names found hfound).1 hne
  · intro names sub cause hsub hnone hnames habove
    have hne : names ≠ [] := by
      rintro rfl
      cases hnone
    refine h.fresh (name :: names) sub cause ((hat' names).trans hsub) (hat names)
      (List.forall_mem_cons.2 ⟨hkept, hnames⟩) ?_
    rw [List.dropLast_cons_of_ne_nil hne]
    exact habove

/-- What a directory listed it lists still. -/
theorem Grown.find? (h : w.Grown w' config f path node node')
    (hfind : Listing.find? node.entries name = some child) :
    ∃ child', Listing.find? node'.entries name = some child' ∧
      child'.isDirectory = child.isDirectory := by
  obtain ⟨child', hat', hdirectory⟩ := h.kept [name] child ((node.at?_single name).trans hfind)
  exact ⟨child', (node'.at?_single name).symm.trans hat', hdirectory⟩

/-- Where no links are, an entry ranks with the directories when it is one. -/
theorem ranksAsDirectory_of_unlinked (h : ∀ names target, node.at? names ≠ some (.link target))
    (hfind : Listing.find? node.entries name = some child) :
    w.ranksAsDirectory (path.join name) child = child.isDirectory := by
  cases child with
  | link target => exact absurd ((node.at?_single name).trans hfind) (h [name] target)
  | _ => rfl

/-- What is read off a file is what was read off it; a new one gives nothing. -/
theorem Grown.visitFile (h : w.Grown w' config f path node node') (hf : Visit.Selective f)
    (root : Path) (hfind' : Listing.find? node'.entries name = some child')
    (hleaf : child'.isDirectory = false) :
    (f (w'.visitFile config.rules root (path.join name) name)) =
      if (Listing.find? node.entries name).isSome then
        f (w.visitFile config.rules root (path.join name) name)
      else none := by
  have hat' : node'.at? ([] ++ [name]) = some child' := (node'.at?_single name).trans hfind'
  by_cases hselects : config.rules.inclusion.selects (Utf8.replaceBroken name) = true
  · have hat := h.same [] name child' hat' hleaf hselects
    have hread := h.read [name] child' (List.cons_ne_nil _ _) hat hleaf hat'
    rw [Path.joinAll_cons, Path.joinAll_nil] at hread
    have hsome : (Listing.find? node.entries name).isSome = true :=
      Option.isSome_iff_exists.2 ⟨child', (node.at?_single name).symm.trans hat⟩
    rw [if_pos hsome, World.visitFile, World.visitFile, hread]
  · have hunselected : ∀ v : World, v.visitFile config.rules root (path.join name) name =
        .unselected (path.join name) := by
      intro v
      exact if_neg hselects
    rw [hunselected, hunselected, hf.unselected]
    split <;> rfl

/-- What is read off the visits of a directory is what is read off those below it. -/
theorem filterMap_visits_congr (hdirectory : child.isDirectory = true)
    (hdirectory' : child'.isDirectory = true)
    (hbelow : config.rules.exclusion.excludes (Utf8.replaceBroken name) = false →
      (path.join name).refusal? = none →
      (w'.descend config root (path.join name) child'.entries).filterMap f =
        (w.descend config root (path.join name) child.entries).filterMap f) :
    (w'.branch config root (path.join name) name child').visits.filterMap f =
      (w.branch config root (path.join name) name child).visits.filterMap f := by
  rw [Node.eq_directory hdirectory, Node.eq_directory hdirectory', visits_branch_directory,
    visits_branch_directory]
  cases hexcluded : config.rules.exclusion.excludes (Utf8.replaceBroken name) with
  | true => rfl
  | false =>
    cases hrefusal : (path.join name).refusal? with
    | some cause => rfl
    | none => exact hbelow hexcluded hrefusal

/-- Nothing is read off the visits of a new directory, when nothing is read off those below it. -/
theorem Grown.visits_anew (h : w.Grown w' config f path node node') (hf : Visit.Selective f)
    (hpath : path.refusal? = none) (hnone : Listing.find? node.entries name = none)
    (hfind' : Listing.find? node'.entries name = some child') (hdirectory : child'.isDirectory = true)
    (hbelow : config.rules.exclusion.excludes (Utf8.replaceBroken name) = false →
      (path.join name).refusal? = none →
      (w'.descend config root (path.join name) child'.entries).filterMap f = []) :
    (w'.branch config root (path.join name) name child').visits.filterMap f = [] := by
  have hat' : node'.at? [name] = some (.directory child'.entries) := by
    rw [Node.at?_single, hfind', ← Node.eq_directory hdirectory]
  have hat : node.at? [name] = none := (node.at?_single name).trans hnone
  rw [Node.eq_directory hdirectory, visits_branch_directory]
  cases hexcluded : config.rules.exclusion.excludes (Utf8.replaceBroken name) with
  | true => simp [hf.pruned]
  | false =>
    cases hrefusal : (path.join name).refusal? with
    | some cause =>
      have hunlisted := h.fresh [name] child'.entries cause hat' hat (by simpa using hexcluded)
        hpath hrefusal
      rw [Path.joinAll_cons, Path.joinAll_nil] at hunlisted
      simp [hunlisted]
    | none => exact hbelow hexcluded hrefusal

/-- What is read off the files of a directory that grew is what was read off them. -/
theorem Grown.filterMap_files {entries entries' : Listing} (root : Path)
    (h : w.Grown w' config f path (.directory entries) (.directory entries'))
    (hf : Visit.Selective f) (hvalid : Listing.Valid entries) (hvalid' : Listing.Valid entries') :
    (((entries'.inOrder .sorted).filter fun e => !w'.ranksAsDirectory (path.join e.1) e.2).map
        fun e => w'.visitFile config.rules root (path.join e.1) e.1).filterMap f =
      (((entries.inOrder .sorted).filter fun e => !w.ranksAsDirectory (path.join e.1) e.2).map
        fun e => w.visitFile config.rules root (path.join e.1) e.1).filterMap f := by
  simp only [List.map_eq_flatMap, filterMap_flatMap_filter]
  refine hvalid.flatMap_inOrder hvalid' ?_ ?_
  · intro name child hfind
    obtain ⟨child', hfind', hdirectory⟩ := h.find? hfind
    refine ⟨child', hfind', ?_⟩
    dsimp only
    rw [ranksAsDirectory_of_unlinked h.unlinked hfind,
      ranksAsDirectory_of_unlinked h.unlinked' hfind', hdirectory]
    cases hleaf : child.isDirectory with
    | true => rfl
    | false =>
      have hvisit := h.visitFile hf root hfind' (hdirectory.trans hleaf)
      rw [Node.entries, hfind, Option.isSome_some, if_pos rfl] at hvisit
      simp only [Bool.not_false, if_true, List.filterMap_cons, List.filterMap_nil, hvisit]
  · intro name child' hfind' hnone
    dsimp only
    rw [ranksAsDirectory_of_unlinked h.unlinked' hfind']
    cases hleaf : child'.isDirectory with
    | true => rfl
    | false =>
      have hvisit := h.visitFile hf root hfind' hleaf
      rw [Node.entries, hnone, Option.isSome_none, if_neg Bool.false_ne_true] at hvisit
      simp only [Bool.not_false, if_true, List.filterMap_cons, List.filterMap_nil, hvisit]

/-- What is read off a sorted walk of a tree that grew is what was read off it before. -/
theorem filterMap_descend_grown (hf : Visit.Selective f) (hsorted : config.order = .sorted)
    (hvalid : node.Valid) (hvalid' : node'.Valid) (hpath : path.refusal? = none)
    (h : w.Grown w' config f path node node') :
    (w'.descend config root path node'.entries).filterMap f =
      (w.descend config root path node.entries).filterMap f := by
  -- the tree as it grew has all the names of the old one, so the induction is on it
  induction node' using Node.induct generalizing node path with
  | leaf node' hleaf =>
    obtain ⟨found, hfound, hdirectory⟩ := h.kept [] node rfl
    obtain ⟨rfl⟩ := hfound
    rw [Node.entries_of_not_directory hleaf, Node.entries_of_not_directory
      (hdirectory.symm.trans hleaf), descend_nil, descend_nil]
  | directory entries' ih =>
    obtain ⟨entries, rfl⟩ : ∃ entries, node = .directory entries := by
      obtain ⟨found, hfound, hdirectory⟩ := h.kept [] node rfl
      obtain ⟨rfl⟩ := hfound
      exact ⟨node.entries, Node.eq_directory hdirectory.symm⟩
    obtain ⟨hlisting, htrees⟩ := Node.valid_directory_iff.1 hvalid
    obtain ⟨hlisting', htrees'⟩ := Node.valid_directory_iff.1 hvalid'
    simp only [descend_eq, hsorted, List.filterMap_append, Node.entries]
    rw [h.filterMap_files root hf hlisting hlisting']
    -- the subdirectories
    congr 1
    simp only [filterMap_flatMap_filter]
    refine hlisting.flatMap_inOrder hlisting' ?_ ?_
    · intro name child hfind
      obtain ⟨child', hfind', hdirectory⟩ := h.find? hfind
      have hmem := Listing.mem_of_find? hfind
      have hmem' := Listing.mem_of_find? hfind'
      refine ⟨child', hfind', ?_⟩
      dsimp only
      rw [hdirectory]
      cases hdir : child.isDirectory with
      | false => rfl
      | true =>
        refine filterMap_visits_congr hdir (hdirectory.trans hdir) ?_
        intro hkept hentered
        exact ih _ hmem' (htrees _ hmem) (htrees' _ hmem') hentered (h.inside hfind hfind' hkept)
    · intro name child' hfind' hnone
      have hmem' := Listing.mem_of_find? hfind'
      dsimp only
      cases hdir : child'.isDirectory with
      | false => rfl
      | true =>
        refine h.visits_anew hf hpath hnone hfind' hdir ?_
        intro hkept hentered
        -- a new directory grew from an empty one, off whose walk nothing is read
        have hbelow := ih _ hmem' (Node.valid_directory_iff.2 ⟨by decide, by simp⟩)
          (htrees' _ hmem') hentered (h.anew hnone hfind' hdir hkept)
        rwa [Node.entries, descend_nil] at hbelow

end World

end SourceBundle
