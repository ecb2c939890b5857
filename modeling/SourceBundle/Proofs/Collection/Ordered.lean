import SourceBundle.Proofs.Collection.Found

/-!
The order of a sorted collection. Two chains of names are compared where they first differ: the one
that ends there is a file of that directory and comes first, and otherwise the bytes of the names
decide. This is a strict order on all chains, and the selected files of a sorted walk stand in it,
whatever the depth at which they lie.
-/

namespace SourceBundle

/-! ### The order of chains -/

/-- Whether one chain of names comes before another. -/
def precedes : List Name → List Name → Bool
  | _, [] => false
  | [], _ :: _ => true
  | a :: as, b :: bs =>
    if a = b then precedes as bs
    else if as.isEmpty = bs.isEmpty then Bytes.le a b
    else as.isEmpty

theorem precedes_cons_self (name : Name) (a b : List Name) :
    precedes (name :: a) (name :: b) = precedes a b := by
  simp [precedes]

/-- No chain comes before itself. -/
theorem precedes_irrefl : ∀ a : List Name, precedes a a = false
  | [] => rfl
  | name :: a => by rw [precedes_cons_self, precedes_irrefl a]

/-- The order of chains is transitive. -/
theorem precedes_trans : ∀ {a b c : List Name}, precedes a b = true → precedes b c = true →
    precedes a c = true
  | a, b, [], _, hbc => by cases b <;> cases hbc
  | a, [], _ :: _, hab, _ => by cases a <;> cases hab
  | [], _ :: _, _ :: _, _, _ => rfl
  | x :: a, y :: b, z :: c, hab, hbc => by
    have ih := @precedes_trans a b c
    have htrans := @Bytes.le_trans x y z
    have hxy := @Bytes.le_antisymm x y
    have hyz := @Bytes.le_antisymm y z
    simp only [precedes] at *
    -- which of the three chains end here decides all comparisons but those of the names
    cases a <;> cases b <;> cases c <;> grind [precedes]

/-- Of two files of one directory the lesser name comes first. -/
theorem precedes_files {a b : Name} (hne : a ≠ b) (hle : Bytes.le a b = true) :
    precedes [a] [b] = true := by
  simp [precedes, hne, hle]

/-- A file comes before everything in a subdirectory beside it. -/
theorem precedes_file_directory (a b : Name) {rest : List Name} (hrest : rest ≠ []) :
    precedes [a] (b :: rest) = true := by
  obtain ⟨c, rest, rfl⟩ := List.exists_cons_of_ne_nil hrest
  simp [precedes]

/-- Of two subdirectories everything in the one with the lesser name comes first. -/
theorem precedes_directories {a b : Name} {as bs : List Name} (hne : a ≠ b)
    (hle : Bytes.le a b = true) (has : as ≠ []) (hbs : bs ≠ []) :
    precedes (a :: as) (b :: bs) = true := by
  have hends : as.isEmpty = bs.isEmpty := by
    rw [List.isEmpty_eq_false_iff.2 has, List.isEmpty_eq_false_iff.2 hbs]
  simp [precedes, hne, hle, hends]

/-- Where of two members only one can come first, a list in order is told by its members. -/
theorem eq_of_pairwise_of_mem_iff {α : Type} {r : α → α → Prop} {l l' : List α}
    (hstrict : ∀ a ∈ l, ∀ b ∈ l, r a b → ¬ r b a) (h : l.Pairwise r) (h' : l'.Pairwise r)
    (hmem : ∀ a, a ∈ l ↔ a ∈ l') : l = l' := by
  have hne : ∀ a ∈ l, ∀ b ∈ l, r a b → a ≠ b := by
    rintro a ha b hb hab rfl
    exact hstrict a ha a ha hab hab
  have hnodup : l.Nodup := h.imp_of_mem fun ha hb hab => hne _ ha _ hb hab
  have hnodup' : l'.Nodup :=
    h'.imp_of_mem fun ha hb hab => hne _ ((hmem _).2 ha) _ ((hmem _).2 hb) hab
  refine ((List.perm_ext_iff_of_nodup hnodup hnodup').2 hmem).eq_of_pairwise ?_ h h'
  intro a b ha hb hab hba
  exact absurd hba (hstrict a ha b ((hmem b).2 hb) hab)

/-! ### Sorted listings -/

/-- In a sorted listing every name is less than the later ones. -/
theorem Listing.Valid.pairwise_inOrder {entries : Listing} (h : Listing.Valid entries) :
    (entries.inOrder .sorted).Pairwise fun a b => a.1 ≠ b.1 ∧ Bytes.le a.1 b.1 = true := by
  have htotal : ∀ a b : Name × Node, (Bytes.le a.1 b.1 || Bytes.le b.1 a.1) = true := fun a b => by
    rw [Bool.or_eq_true]
    exact Bytes.le_total a.1 b.1
  have htrans : ∀ a b c : Name × Node, Bytes.le a.1 b.1 = true → Bytes.le b.1 c.1 = true →
      Bytes.le a.1 c.1 = true := fun _ _ _ => Bytes.le_trans
  have hsorted : (entries.inOrder .sorted).Pairwise fun a b => Bytes.le a.1 b.1 = true :=
    List.pairwise_mergeSort htrans htotal entries
  have hnodup : ((entries.inOrder .sorted).map Prod.fst).Nodup :=
    ((entries.perm_inOrder .sorted).map Prod.fst).nodup_iff.2 h.nodup
  rw [List.Nodup, List.pairwise_map] at hnodup
  exact hnodup.and hsorted

/-! ### Sorted walks -/

/-- Whether one path below a base stands before another. -/
def Path.Before (base p q : Path) : Prop :=
  ∃ a b, (∀ name ∈ a, Name.Valid name) ∧ (∀ name ∈ b, Name.Valid name) ∧ p = base.joinAll a ∧
    q = base.joinAll b ∧ precedes a b = true

theorem Path.before_iff {base : Path} {a b : List Name} (ha : ∀ name ∈ a, Name.Valid name)
    (hb : ∀ name ∈ b, Name.Valid name) :
    base.Before (base.joinAll a) (base.joinAll b) ↔ precedes a b = true := by
  constructor
  · rintro ⟨a', b', ha', hb', heq, heq', hprecedes⟩
    rwa [joinAll_injective ha ha' heq, joinAll_injective hb hb' heq']
  · intro hprecedes
    exact ⟨a, b, ha, hb, rfl, rfl, hprecedes⟩

/-- No path stands before itself. -/
theorem Path.Before.ne {base p q : Path} (h : base.Before p q) : p ≠ q := by
  obtain ⟨a, b, ha, hb, rfl, rfl, hprecedes⟩ := h
  intro heq
  rw [joinAll_injective ha hb heq, precedes_irrefl] at hprecedes
  cases hprecedes

/-- Of two paths only one stands before the other. -/
theorem Path.Before.asymm {base p q : Path} (h : base.Before p q) : ¬ base.Before q p := by
  obtain ⟨a, b, ha, hb, rfl, rfl, hab⟩ := h
  rw [before_iff hb ha]
  intro hba
  have hself := precedes_trans hab hba
  rw [precedes_irrefl] at hself
  cases hself

/-- Whether the selected files of two visits stand in order below a directory. -/
def Visit.Before (base : Path) (v v' : Visit) : Prop :=
  ∀ p ∈ v.selected?, ∀ q ∈ v'.selected?, base.Before p q

namespace World

variable {w : World} {config : Config} {root path : Path} {node : Node}

/-- A selected file of a directory's entry lies below that entry. -/
theorem selected?_branch {e : Name × Node} (hname : Name.Valid e.1) (hvalid : e.2.Valid)
    (hdir : e.2.isDirectory = true) {v : Visit}
    (h : v ∈ (w.branch config root (path.join e.1) e.1 e.2).visits) {p : Path}
    (hp : p ∈ v.selected?) :
    ∃ a, a ≠ [] ∧ (∀ name ∈ e.1 :: a, Name.Valid name) ∧ p = path.joinAll (e.1 :: a) := by
  rcases mem_visits_branch_iff.1 h with hown | ⟨-, -, -, hbelow⟩
  · have hv : v.selected? ≠ none := by
      rw [hp]
      simp
    obtain ⟨hrank, -⟩ := (mem_ownVisits_iff hv).1 hown
    rw [Node.eq_directory hdir] at hrank
    cases hrank
  · obtain ⟨a, hne, ha, rfl⟩ := selected?_descend hvalid hbelow hp
    exact ⟨a, hne, List.forall_mem_cons.2 ⟨hname, ha⟩, rfl⟩

/-- The selected files of a sorted walk stand in order. -/
theorem pairwise_descend (root : Path) (hsorted : config.order = .sorted) (hvalid : node.Valid) :
    (w.descend config root path node.entries).Pairwise (Visit.Before path) := by
  induction node using Node.induct generalizing path with
  | leaf node hleaf =>
    rw [Node.entries_of_not_directory hleaf, descend_nil]
    exact .nil
  | directory entries ih =>
    have hpairs := hvalid.listing.pairwise_inOrder
    have hnames : ∀ e ∈ entries.inOrder .sorted, Name.Valid e.1 := by
      intro e he
      exact hvalid.listing.names _ (List.mem_map_of_mem (Listing.mem_inOrder.1 he))
    have htrees : ∀ e ∈ entries.inOrder .sorted, e.2.Valid := by
      intro e he
      exact (Node.valid_directory_iff.1 hvalid).2 e (Listing.mem_inOrder.1 he)
    rw [descend_eq, hsorted, List.pairwise_append]
    refine ⟨?_, ?_, ?_⟩
    · -- two files of the directory
      rw [List.pairwise_map]
      refine (hpairs.filter _).imp_of_mem ?_
      rintro a b ha hb ⟨hne, hle⟩ p hp q hq
      have ha := hnames a (List.mem_of_mem_filter ha)
      have hb := hnames b (List.mem_of_mem_filter hb)
      exact ⟨[a.1], [b.1], by simpa using ha, by simpa using hb, selected?_of_visitFile hp,
        selected?_of_visitFile hq, precedes_files hne hle⟩
    · rw [List.pairwise_flatMap]
      refine ⟨?_, ?_⟩
      · -- two entries below one subdirectory
        intro e he
        obtain ⟨hmem, hdir⟩ := List.mem_filter.1 he
        have hbelow := @ih e (Listing.mem_inOrder.1 hmem) (path.join e.1) (htrees e hmem)
        rw [Node.eq_directory hdir, visits_branch_directory]
        split
        · exact List.pairwise_singleton _ _
        · split
          · exact List.pairwise_singleton _ _
          · refine hbelow.imp ?_
            intro v v' hbefore p hp q hq
            obtain ⟨a, b, ha, hb, rfl, rfl, hab⟩ := hbefore p hp q hq
            exact ⟨e.1 :: a, e.1 :: b, List.forall_mem_cons.2 ⟨hnames e hmem, ha⟩,
              List.forall_mem_cons.2 ⟨hnames e hmem, hb⟩, rfl, rfl,
              (precedes_cons_self ..).trans hab⟩
      · -- entries below two subdirectories
        refine (hpairs.filter _).imp_of_mem ?_
        rintro a b ha hb ⟨hne, hle⟩ v hv v' hv' p hp q hq
        obtain ⟨ha, hdir⟩ := List.mem_filter.1 ha
        obtain ⟨hb, hdir'⟩ := List.mem_filter.1 hb
        obtain ⟨as, has, hvalids, rfl⟩ := selected?_branch (hnames a ha) (htrees a ha) hdir hv hp
        obtain ⟨bs, hbs, hvalids', rfl⟩ := selected?_branch (hnames b hb) (htrees b hb) hdir' hv' hq
        exact ⟨a.1 :: as, b.1 :: bs, hvalids, hvalids', rfl, rfl,
          precedes_directories hne hle has hbs⟩
    · -- a file and an entry below a subdirectory
      intro v hv v' hv' p hp q hq
      obtain ⟨a, ha, rfl⟩ := List.mem_map.1 hv
      obtain ⟨b, hb, hv'⟩ := List.mem_flatMap.1 hv'
      obtain ⟨hb, hdir⟩ := List.mem_filter.1 hb
      have ha := hnames a (List.mem_of_mem_filter ha)
      obtain ⟨bs, hbs, hvalids, rfl⟩ := selected?_branch (hnames b hb) (htrees b hb) hdir hv' hq
      exact ⟨[a.1], b.1 :: bs, by simpa using ha, hvalids, selected?_of_visitFile hp, rfl,
        precedes_file_directory _ _ hbs⟩

/-! ### Sorted collections -/

variable {place : Place} {entries : Listing}

/-- The files of a sorted collection stand in order. -/
theorem pairwise_files (hdisk : w.disk.Valid)
    (hroot : w.follow root = .ok (place, .directory entries))
    (hsorted : config.order = .sorted) :
    (w.collect config root).files.Pairwise fun e e' => root.Before e.path e'.path := by
  obtain ⟨-, -, -, htop, -⟩ := follow_eq_ok_iff.1 hroot
  rw [collect_of_follow hroot, Collection.ofVisits, List.pairwise_filterMap]
  refine (pairwise_descend root hsorted (hdisk.node? htop)).imp ?_
  intro v v' hbefore e he e' he'
  exact hbefore _ (Visit.selected?_of_entry he) _ (Visit.selected?_of_entry he')

/-- The failures of a sorted collection stand in order. -/
theorem pairwise_failures (hdisk : w.disk.Valid)
    (hroot : w.follow root = .ok (place, .directory entries)) (hsorted : config.order = .sorted) :
    (w.collect config root).failures.Pairwise fun f f' =>
      ∀ p cause, f = .read p cause → ∀ q cause', f' = .read q cause' → root.Before p q := by
  obtain ⟨-, -, -, htop, -⟩ := follow_eq_ok_iff.1 hroot
  rw [collect_of_follow hroot, Collection.ofVisits, List.pairwise_filterMap]
  refine (pairwise_descend root hsorted (hdisk.node? htop)).imp ?_
  intro v v' hbefore f hf f' hf' p cause hp q cause' hq
  obtain ⟨p', _, hp', hselected⟩ := Visit.selected?_of_failure hf
  obtain ⟨q', _, hq', hselected'⟩ := Visit.selected?_of_failure hf'
  obtain ⟨rfl, -⟩ := Failure.read.inj (hp.symm.trans hp')
  obtain ⟨rfl, -⟩ := Failure.read.inj (hq.symm.trans hq')
  exact hbefore _ hselected _ hselected'

end World

end SourceBundle
