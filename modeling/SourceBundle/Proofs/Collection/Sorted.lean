import SourceBundle.Proofs.Collection.Ordered
import SourceBundle.Proofs.Disk.Relisting

/-!
Sorted collections. What a sorted walk gives stands in the order of chains, from the first file to
the last, and it does not depend on the order in which the disk lists its directories: a listing
whose names are all different can be sorted in one way only, so two disks that differ in nothing
else are walked alike.
-/

namespace SourceBundle

/-- The chain of names at which a failure to read stands, as seen from `root`. -/
def Failure.stepsBelow (root : Path) : Failure → List Name
  | .read path _ => ((path.relativeTo? root).getD path).steps
  | _ => []

/-- However a listing is shuffled, it is sorted in the same way. -/
theorem Listing.Valid.inOrder_relisted {entries entries' : Listing} {below : Name × Node → Node}
    (h : Valid entries) (hperm : entries'.Perm (entries.map fun e => (e.1, below e))) :
    entries'.inOrder .sorted = (entries.inOrder .sorted).map fun e => (e.1, below e) := by
  have hshuffled : (entries'.inOrder .sorted).Perm
      ((entries.inOrder .sorted).map fun e => (e.1, below e)) := by
    refine (entries'.perm_inOrder .sorted).trans (hperm.trans ?_)
    exact ((entries.perm_inOrder .sorted).map _).symm
  have hpairs : ((entries.inOrder .sorted).map fun e => (e.1, below e)).Pairwise
      fun a b => a.1 ≠ b.1 ∧ Bytes.le a.1 b.1 = true := by
    rw [List.pairwise_map]
    exact h.pairwise_inOrder
  refine List.Perm.eq_of_pairwise ?_ (h.relisted hperm).pairwise_inOrder hpairs hshuffled
  intro a b _ _ hab hba
  exact absurd (Bytes.le_antisymm hab.2 hba.2) hab.1

namespace World

variable {w : World} {d : Disk} {config : Config} {root path : Path} {node node' : Node}

/-! ### Disks that differ in the order of their listings -/

theorem ranksAsDirectory_relisted (h : w.disk.Relisted d) (hdisk : w.disk.Valid)
    (hnode : node.Relisted node') :
    { w with disk := d }.ranksAsDirectory path node' = w.ranksAsDirectory path node := by
  cases hnode with
  | directory => rfl
  | leaf _ hleaf =>
    cases node with
    | link target => exact isDirectory_relisted h hdisk path
    | _ => rfl

theorem visitFile_relisted (h : w.disk.Relisted d) (hdisk : w.disk.Valid) {rules : Rules}
    {name : Name} :
    { w with disk := d }.visitFile rules root path name = w.visitFile rules root path name := by
  unfold visitFile
  rw [read_relisted h hdisk]

/-- A sorted walk gives the same visits. -/
theorem descend_relisted (h : w.disk.Relisted d) (hdisk : w.disk.Valid)
    (hsorted : config.order = .sorted) (hnode : node.Relisted node') (hvalid : node.Valid) :
    { w with disk := d }.descend config root path node'.entries =
      w.descend config root path node.entries := by
  induction hnode generalizing path with
  | leaf node hleaf => rw [Node.entries_of_not_directory hleaf, descend_nil, descend_nil]
  | directory entries entries' below hbelow hperm ih =>
    obtain ⟨hlisting, htrees⟩ := Node.valid_directory_iff.1 hvalid
    refine descend_congr (hsorted ▸ hlisting.inOrder_relisted hperm) ?_ ?_ ?_ ?_
    · intro e he
      exact (hbelow e he).isDirectory_eq.symm
    · intro e he
      exact ranksAsDirectory_relisted h hdisk (hbelow e he)
    · intro e _ _
      exact visitFile_relisted h hdisk
    · intro e he _ _
      exact ih e he (htrees e he)

/-- A sorted collection is the same. -/
theorem collect_relisted (h : w.disk.Relisted d) (hdisk : w.disk.Valid)
    (hsorted : config.order = .sorted) (root : Path) :
    { w with disk := d }.collect config root = w.collect config root := by
  have hinspect := agrees_inspect h hdisk root
  have hfollow := agrees_follow h hdisk root
  have hvalid : ∀ {place node}, w.inspect root = .ok (place, node) → node.Valid := by
    intro place node hok
    obtain ⟨-, -, -, hnode, -⟩ := inspect_eq_ok_iff.1 hok
    exact hdisk.node? hnode
  have hvalid' : ∀ {place node}, w.follow root = .ok (place, node) → node.Valid := by
    intro place node hok
    obtain ⟨-, -, -, hnode, -⟩ := follow_eq_ok_iff.1 hok
    exact hdisk.node? hnode
  unfold collect walk
  congr 1
  generalize w.inspect root = found at hinspect hvalid
  generalize { w with disk := d }.inspect root = found' at hinspect
  generalize w.follow root = followed at hfollow hvalid'
  generalize { w with disk := d }.follow root = followed' at hfollow
  cases hinspect with
  | error cause => rfl
  | @ok place node node' hnode =>
    cases hnode with
    | directory entries entries' below hbelow hperm =>
      exact descend_relisted h hdisk hsorted (.directory entries entries' below hbelow hperm)
        (hvalid rfl)
    | leaf _ hleaf =>
      cases node with
      | directory entries => cases hleaf
      | file content => rfl
      | device kind => rfl
      | link target =>
        cases hfollow with
        | error cause => rfl
        | ok place hnode => exact descend_relisted h hdisk hsorted hnode (hvalid' rfl)

/-! ### The order of the collection -/

theorem stepsBelow_read {names : List Name} {cause : IoError} (h : ∀ name ∈ names, Name.Valid name) :
    (Failure.read (root.joinAll names) cause).stepsBelow root = names := by
  rw [Failure.stepsBelow, Path.relativeTo?_joinAll root h, Option.getD_some, Path.steps_ofNames h]

theorem pairwise_steps_files (hdisk : w.disk.Valid) (rules : Rules) (root : Path) :
    ((w.collect ⟨rules, .sorted⟩ root).files.map (·.relativePath.steps)).Pairwise
      (precedes · · = true) := by
  cases hdir : w.isDirectory root with
  | false =>
    rw [collect_of_not_directory hdir]
    exact .nil
  | true =>
    obtain ⟨place, entries, hroot⟩ := isDirectory_iff.1 hdir
    obtain ⟨-, -, -, htop, -⟩ := follow_eq_ok_iff.1 hroot
    rw [List.pairwise_map]
    refine (pairwise_files hdisk hroot rfl).imp_of_mem ?_
    intro e e' he he' hbefore
    obtain ⟨dirs, name, _, hselects, -, rfl⟩ := (mem_files_iff hdisk hroot).1 he
    obtain ⟨dirs', name', _, hselects', -, rfl⟩ := (mem_files_iff hdisk hroot).1 he'
    have hchain := hselects.chain_valid (hdisk.node? htop)
    have hchain' := hselects'.chain_valid (hdisk.node? htop)
    simp only [Entry.found, Path.steps_ofNames hchain, Path.steps_ofNames hchain']
    exact (Path.before_iff hchain hchain').1 hbefore

theorem pairwise_steps_failures (hdisk : w.disk.Valid) (rules : Rules) (root : Path) :
    ((w.collect ⟨rules, .sorted⟩ root).failures.map (·.stepsBelow root)).Pairwise
      (precedes · · = true) := by
  cases hdir : w.isDirectory root with
  | false =>
    rw [collect_of_not_directory hdir]
    exact .nil
  | true =>
    obtain ⟨place, entries, hroot⟩ := isDirectory_iff.1 hdir
    obtain ⟨-, -, -, htop, -⟩ := follow_eq_ok_iff.1 hroot
    rw [List.pairwise_map]
    refine (pairwise_failures hdisk hroot rfl).imp_of_mem ?_
    intro f f' hf hf' hbefore
    obtain ⟨dirs, name, _, hselects, -, rfl⟩ := (mem_failures_iff hroot).1 hf
    obtain ⟨dirs', name', _, hselects', -, rfl⟩ := (mem_failures_iff hroot).1 hf'
    have hchain := hselects.chain_valid (hdisk.node? htop)
    have hchain' := hselects'.chain_valid (hdisk.node? htop)
    rw [stepsBelow_read hchain, stepsBelow_read hchain']
    exact (Path.before_iff hchain hchain').1 (hbefore _ _ rfl _ _ rfl)

/-- The files and the failures of a sorted collection stand in the order of chains, each strictly
before all that follow, and any disk that differs only in the order of its listings gives the same
collection. -/
theorem collect_sorted (w : World) (rules : Rules) (root : Path) (hdisk : w.disk.Valid) :
    ((w.collect ⟨rules, .sorted⟩ root).files.map (·.relativePath.steps)).Pairwise
        (precedes · · = true) ∧
      ((w.collect ⟨rules, .sorted⟩ root).failures.map (·.stepsBelow root)).Pairwise
        (precedes · · = true) ∧
      ∀ d, w.disk.Relisted d →
        { w with disk := d }.collect ⟨rules, .sorted⟩ root = w.collect ⟨rules, .sorted⟩ root :=
  ⟨pairwise_steps_files hdisk rules root, pairwise_steps_failures hdisk rules root,
    fun _ h => collect_relisted h hdisk rfl root⟩

/-- The project on the small disk with its listing turned around gives the same sorted
collection. -/
theorem collect_sorted_sample :
    Disk.sample.Valid ∧
      { World.sample with disk := Disk.sample.modify List.reverse [[0x70]] }.collect
          ⟨.builtin, .sorted⟩ ⟨[0x2F, 0x70]⟩ =
        World.sample.collect ⟨.builtin, .sorted⟩ ⟨[0x2F, 0x70]⟩ :=
  ⟨Disk.valid_sample, (collect_sorted World.sample .builtin ⟨[0x2F, 0x70]⟩ Disk.valid_sample).2.2 _
    (Disk.relisted_modify (fun entries => entries.reverse_perm) [[0x70]])⟩

end World

end SourceBundle
