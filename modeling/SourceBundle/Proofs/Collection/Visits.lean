import SourceBundle.Collection.Basic
import SourceBundle.Proofs.Disk.Lookup

/-!
What the walk of a directory consists of. The entries are taken in order, first those that do not
rank with the directories, one visit each, then the directories, each with all its visits together.
From this one equation follow the recursion of the whole walk and the account of all visits: each is
to an entry of a directory that is entered.
-/

namespace SourceBundle

/-- The entries of a directory in the order in which they are taken. -/
def Listing.inOrder (entries : Listing) : Order → Listing
  | .discovery => entries
  | .sorted => entries.mergeSort fun a b => Bytes.le a.1 b.1

theorem Listing.perm_inOrder (entries : Listing) (order : Order) :
    (entries.inOrder order).Perm entries := by
  cases order with
  | discovery => exact .refl entries
  | sorted => exact List.mergeSort_perm entries _

@[simp] theorem Listing.mem_inOrder {entries : Listing} {order : Order} {e : Name × Node} :
    e ∈ entries.inOrder order ↔ e ∈ entries :=
  (entries.perm_inOrder order).mem_iff

@[simp] theorem Listing.inOrder_nil (order : Order) : Listing.inOrder [] order = [] := by
  cases order <;> simp [inOrder]

/-- Branches that stand for entries are arranged as the entries are. -/
theorem Branch.arrange_map (order : Order) (entries : Listing) (make : Name × Node → Branch)
    (hname : ∀ e, (make e).name = e.1) :
    Branch.arrange order (entries.map make) =
      ((entries.inOrder order).filter (fun e => !(make e).isDirectory)).map make ++
        ((entries.inOrder order).filter fun e => (make e).isDirectory).map make := by
  cases order with
  | discovery =>
    simp only [Branch.arrange, Listing.inOrder, List.filter_map]
    rfl
  | sorted =>
    have hsort : (entries.map make).mergeSort (fun a b => Bytes.le a.name b.name) =
        (entries.mergeSort fun a b => Bytes.le a.1 b.1).map make :=
      (List.map_mergeSort fun a _ b _ => by rw [hname, hname]).symm
    simp only [Branch.arrange, Listing.inOrder, hsort, List.filter_map]
    rfl

/-- What has nothing to give may be left out. -/
theorem flatMap_filter_of_nil {α β : Type} {p q : α → Bool} {f : α → List β} {l : List α}
    (hpq : ∀ a ∈ l, q a = true → p a = true) (hnil : ∀ a ∈ l, p a = true → q a = false → f a = []) :
    (l.filter p).flatMap f = (l.filter q).flatMap f := by
  induction l with
  | nil => rfl
  | cons a l ih =>
    rw [List.forall_mem_cons] at hpq hnil
    have ih := ih hpq.2 hnil.2
    cases hp : p a with
    | true =>
      cases hq : q a with
      | true => simp [hp, hq, ih]
      | false => simp [hp, hq, ih, hnil.1 hp hq]
    | false =>
      have hq : q a = false := by
        by_contra h
        rw [hpq.1 (by simpa using h)] at hp
        cases hp
      simp [hp, hq, ih]

namespace World

variable (w : World) (config : Config) (root path : Path)

/-- Whether an entry of a directory ranks with the directories. -/
def ranksAsDirectory : Node → Bool
  | .directory _ => true
  | .link _ => w.isDirectory path
  | _ => false

/-- The visits of the entries of a directory that is entered. -/
def descend (entries : Listing) : List Visit :=
  Branch.visitAll config.order (w.branches config root path entries)

theorem branches_eq_map (entries : Listing) :
    w.branches config root path entries =
      entries.map fun e => w.branch config root (path.join e.1) e.1 e.2 := by
  induction entries with
  | nil => rw [branches]; rfl
  | cons e rest ih => rw [branches, ih]; rfl

variable {w config root path} {name : Name} {node : Node} {entries : Listing}

theorem ranksAsDirectory_eq_false_iff :
    w.ranksAsDirectory path node = false ↔
      node.isDirectory = false ∧ ∀ target, node = .link target → w.isDirectory path = false := by
  cases node <;> simp [ranksAsDirectory, Node.isDirectory]

theorem name_branch : (w.branch config root path name node).name = name := by
  cases node with
  | link target => rw [branch]; split <;> rfl
  | _ => rw [branch] <;> simp

theorem isDirectory_branch :
    (w.branch config root path name node).isDirectory = w.ranksAsDirectory path node := by
  cases node with
  | link target => rw [branch, ranksAsDirectory]; split <;> simp_all
  | _ => rw [branch] <;> simp [ranksAsDirectory]

/-- An entry that does not rank with the directories is looked at as a file. -/
theorem visits_branch_of_file (h : w.ranksAsDirectory path node = false) :
    (w.branch config root path name node).visits = [w.visitFile config.rules root path name] := by
  cases node with
  | directory entries => cases h
  | link target => rw [branch, if_neg (by simpa [ranksAsDirectory] using h)]
  | _ => rw [branch] <;> simp

/-- A link to a directory is passed over. -/
theorem visits_branch_of_link (h : w.ranksAsDirectory path node = true)
    (hnode : node.isDirectory = false) : (w.branch config root path name node).visits = [] := by
  cases node with
  | directory entries => cases hnode
  | link target => rw [branch, if_pos (by simpa [ranksAsDirectory] using h)]
  | _ => cases h

theorem visits_branch_directory :
    (w.branch config root path name (.directory entries)).visits =
      if config.rules.exclusion.excludes (Utf8.replaceBroken name) then [.pruned path]
      else
        match path.refusal? with
        | some cause => [.unlisted path cause]
        | none => w.descend config root path entries := by
  rw [branch]
  rfl

/-- The files of a directory come first, one visit each, and then its subdirectories. -/
theorem descend_eq :
    w.descend config root path entries =
      ((entries.inOrder config.order).filter
          fun e => !w.ranksAsDirectory (path.join e.1) e.2).map
        (fun e => w.visitFile config.rules root (path.join e.1) e.1) ++
      ((entries.inOrder config.order).filter fun e => e.2.isDirectory).flatMap
        fun e => (w.branch config root (path.join e.1) e.1 e.2).visits := by
  rw [descend, branches_eq_map, Branch.visitAll, Branch.arrange_map _ _ _ fun _ => name_branch]
  simp only [isDirectory_branch, List.flatMap_append, List.flatMap_map]
  congr 1
  · rw [List.map_eq_flatMap]
    refine List.flatMap_congr ?_
    intro e he
    refine visits_branch_of_file ?_
    simpa using (List.mem_filter.1 he).2
  · refine flatMap_filter_of_nil ?_ ?_
    · intro e _ he
      rw [Node.eq_directory he]
      rfl
    · intro e _ hrank hnode
      exact visits_branch_of_link hrank hnode

theorem descend_nil : w.descend config root path [] = [] := by
  simp [descend_eq]

/-- Walks of two listings, one of them made from the other entry by entry, pay the same visits when every
entry ranks as its counterpart does, is looked at with the same result, and has the same below it. -/
theorem descend_congr {w' : World} {entries' : Listing} {below : Name × Node → Node}
    (horder : entries'.inOrder config.order =
      (entries.inOrder config.order).map fun e => (e.1, below e))
    (hdirs : ∀ e ∈ entries, (below e).isDirectory = e.2.isDirectory)
    (hranks : ∀ e ∈ entries, w'.ranksAsDirectory (path.join e.1) (below e) =
      w.ranksAsDirectory (path.join e.1) e.2)
    (hfiles : ∀ e ∈ entries, w.ranksAsDirectory (path.join e.1) e.2 = false →
      w'.visitFile config.rules root (path.join e.1) e.1 =
        w.visitFile config.rules root (path.join e.1) e.1)
    (hbelow : ∀ e ∈ entries, e.2.isDirectory = true →
      config.rules.exclusion.excludes (Utf8.replaceBroken e.1) = false →
      w'.descend config root (path.join e.1) (below e).entries =
        w.descend config root (path.join e.1) e.2.entries) :
    w'.descend config root path entries' = w.descend config root path entries := by
  have hlisted : ∀ e ∈ entries.inOrder config.order, e ∈ entries := fun _ => Listing.mem_inOrder.1
  simp only [descend_eq, horder, List.filter_map, List.map_map, List.flatMap_map,
    Function.comp_def]
  congr 1
  · -- the files of the directory
    rw [List.filter_congr fun e he => congrArg not (hranks e (hlisted e he))]
    refine List.map_congr_left ?_
    intro e he
    obtain ⟨he, hrank⟩ := List.mem_filter.1 he
    exact hfiles e (hlisted e he) (by simpa using hrank)
  · -- the subdirectories
    rw [List.filter_congr fun e he => hdirs e (hlisted e he)]
    refine List.flatMap_congr ?_
    intro e he
    obtain ⟨he, hdir⟩ := List.mem_filter.1 he
    have hdir' : (below e).isDirectory = true := (hdirs e (hlisted e he)).trans hdir
    rw [Node.eq_directory hdir', Node.eq_directory hdir, visits_branch_directory,
      visits_branch_directory]
    cases hkept : config.rules.exclusion.excludes (Utf8.replaceBroken e.1) with
    | true => rfl
    | false => rw [hbelow e (hlisted e he) hdir hkept]

/-- All visits of a directory are those of its entries. -/
theorem descend_perm :
    (w.descend config root path entries).Perm
      (entries.flatMap fun e => (w.branch config root (path.join e.1) e.1 e.2).visits) := by
  rw [descend, branches_eq_map, Branch.visitAll, Branch.arrange_map _ _ _ fun _ => name_branch,
    ← List.map_append, List.flatMap_map]
  refine List.Perm.flatMap_right _ (List.Perm.trans ?_ (entries.perm_inOrder config.order))
  exact List.perm_append_comm.trans (List.filter_append_perm _ _)

/-! ### The walk as a whole -/

/-- From a path that leads to a directory, that directory is walked. -/
theorem walk_of_follow {place : Place} (h : w.follow root = .ok (place, .directory entries)) :
    w.walk config root = w.descend config root root entries := by
  unfold walk
  rcases inspect_of_follow h with hinspect | ⟨there, target, hinspect⟩
  · rw [hinspect]
    rfl
  · rw [hinspect, h]
    rfl

/-- From a path that leads to no directory, nothing is collected. -/
theorem collect_of_not_directory (h : w.isDirectory root = false) :
    w.collect config root = ⟨[], []⟩ := by
  have hnone : ∀ place entries, w.follow root ≠ .ok (place, .directory entries) := by
    intro place entries hfollow
    rw [isDirectory_iff.2 ⟨place, entries, hfollow⟩] at h
    cases h
  unfold collect walk
  cases hinspect : w.inspect root with
  | error cause => rfl
  | ok found =>
    obtain ⟨place, node⟩ := found
    cases node with
    | directory entries => exact absurd (follow_of_inspect hinspect) (hnone place entries)
    | file content => rfl
    | device kind => rfl
    | link target =>
      cases hfollow : w.follow root with
      | error cause => rfl
      | ok found =>
        obtain ⟨there, node⟩ := found
        cases node with
        | directory entries => exact absurd hfollow (hnone there entries)
        | _ => simp only [Node.entries]; rw [← descend, descend_nil]; rfl

/-! ### Where visits come from -/

/-- The directories that a walk enters from the one at `path`: through real ones that are not left
out and whose paths the system takes. -/
inductive Enters (rules : Exclusion) : Path → Listing → List Name → Listing → Prop
  | here (path : Path) (entries : Listing) : Enters rules path entries [] entries
  | inside {path : Path} {entries sub found : Listing} {name : Name} {names : List Name}
      (mem : (name, .directory sub) ∈ entries)
      (kept : rules.excludes (Utf8.replaceBroken name) = false)
      (taken : (path.join name).refusal? = none)
      (rest : Enters rules (path.join name) sub names found) :
      Enters rules path entries (name :: names) found

/-- The visits to an entry of a directory itself, without what lies below it. -/
def ownVisits (w : World) (config : Config) (root dir : Path) (e : Name × Node) : List Visit :=
  if e.2.isDirectory then
    if config.rules.exclusion.excludes (Utf8.replaceBroken e.1) then [.pruned (dir.join e.1)]
    else (dir.join e.1).refusal?.toList.map (.unlisted (dir.join e.1))
  else if w.ranksAsDirectory (dir.join e.1) e.2 then []
  else [w.visitFile config.rules root (dir.join e.1) e.1]

/-- The visits of an entry are its own, and for a directory that is entered those below it. -/
theorem mem_visits_branch_iff {e : Name × Node} {v : Visit} :
    v ∈ (w.branch config root (path.join e.1) e.1 e.2).visits ↔
      v ∈ w.ownVisits config root path e ∨
        e.2.isDirectory = true ∧ config.rules.exclusion.excludes (Utf8.replaceBroken e.1) = false ∧
          (path.join e.1).refusal? = none ∧ v ∈ w.descend config root (path.join e.1) e.2.entries := by
  obtain ⟨name, node⟩ := e
  cases hdir : node.isDirectory with
  | false =>
    cases hrank : w.ranksAsDirectory (path.join name) node with
    | false => simp [visits_branch_of_file hrank, ownVisits, hdir, hrank]
    | true => simp [visits_branch_of_link hrank hdir, ownVisits, hdir, hrank]
  | true =>
    rw [Node.eq_directory hdir, visits_branch_directory]
    by_cases hexcluded : config.rules.exclusion.excludes (Utf8.replaceBroken name) = true
    · simp [ownVisits, Node.isDirectory, hexcluded]
    · cases hrefusal : (path.join name).refusal? with
      | none => simp [ownVisits, Node.isDirectory, hexcluded, hrefusal, Node.entries]
      | some cause => simp [ownVisits, Node.isDirectory, hexcluded, hrefusal]

/-- Every visit is to an entry of a directory that the walk enters. -/
theorem mem_descend_iff (node : Node) {v : Visit} :
    v ∈ w.descend config root path node.entries ↔
      ∃ names found e, Enters config.rules.exclusion path node.entries names found ∧ e ∈ found ∧
        v ∈ w.ownVisits config root (path.joinAll names) e := by
  induction node using Node.induct generalizing path with
  | leaf node hleaf =>
    rw [Node.entries_of_not_directory hleaf, descend_nil]
    constructor
    · intro h
      cases h
    · rintro ⟨names, found, e, henters, he, -⟩
      cases henters with
      | here => cases he
      | inside mem => cases mem
  | directory entries ih =>
    rw [descend_perm.mem_iff, List.mem_flatMap]
    constructor
    · rintro ⟨e, he, hv⟩
      rcases mem_visits_branch_iff.1 hv with hown | ⟨hdir, hkept, htaken, hbelow⟩
      · exact ⟨[], entries, e, .here path entries, he, hown⟩
      · obtain ⟨names, found, e', henters, he', hown⟩ := (ih e he).1 hbelow
        refine ⟨e.1 :: names, found, e', .inside ?_ hkept htaken henters, he', hown⟩
        rw [← Node.eq_directory hdir]
        exact he
    · rintro ⟨names, found, e, henters, he, hown⟩
      cases henters with
      | here => exact ⟨e, he, mem_visits_branch_iff.2 (.inl hown)⟩
      | inside mem kept taken rest =>
        refine ⟨_, mem, mem_visits_branch_iff.2 (.inr ⟨rfl, kept, taken, ?_⟩)⟩
        exact (ih _ mem).2 ⟨_, found, e, rest, he, hown⟩

end World

end SourceBundle
