import SourceBundle.Proofs.Collection.Spelling
import SourceBundle.Proofs.Disk.Hiding
import SourceBundle.Proofs.Disk.Passing

/-!
What a collection does not look at. Two disks that differ below the root only in what the rules hide,
the inside of directories that are left out and the contents of files that are not selected, give the
same collection, as long as no link brings any of it into sight. The walks list the same names, every
selected file is read with the same result, and every link is walked in the same way.
-/

namespace SourceBundle

/-- A walk in the same order takes what was made of the entries in the order of the entries. -/
theorem Listing.inOrder_map (entries : Listing) (below : Name × Node → Node) (order : Order) :
    Listing.inOrder (entries.map fun e => (e.1, below e)) order =
      (entries.inOrder order).map fun e => (e.1, below e) := by
  cases order with
  | discovery => rfl
  | sorted =>
    exact (List.map_mergeSort (r := fun a b : Name × Node => Bytes.le a.1 b.1)
      (f := fun e => (e.1, below e)) fun _ _ _ _ => rfl).symm

/-- Directories that are not left out lead into none that is. -/
theorem Node.not_leftOut_of_kept {exclusion : Exclusion} {node : Node} {dirs : List Name}
    (hkept : ∀ dir ∈ dirs, exclusion.excludes (Utf8.replaceBroken dir) = false) :
    ¬ node.LeftOut exclusion dirs := by
  rintro ⟨front, name, sub, more, rfl, -, hname⟩
  rw [hkept name (by simp)] at hname
  cases hname

namespace World

variable {w w' : World} {config : Config} {rules : Rules} {root path p : Path} {place : Place}
  {node node' : Node} {entries entries' : Listing} {dirs trail : List Name} {name : Name}
  {target : Path} {d : Disk}

/-! ### Walks of trees that differ out of sight -/

/-- Whether two worlds answer alike whenever a walk of the tree `node` at `path` asks: whether a link
leads to a directory, and what a selected file holds. -/
structure Answers (w w' : World) (rules : Rules) (path : Path) (node : Node) : Prop where
  ranked : ∀ dirs name target, node.at? (dirs ++ [name]) = some (.link target) →
    (∀ dir ∈ dirs, rules.exclusion.excludes (Utf8.replaceBroken dir) = false) →
    w'.isDirectory (path.joinAll (dirs ++ [name])) = w.isDirectory (path.joinAll (dirs ++ [name]))
  read : ∀ dirs name found, node.at? (dirs ++ [name]) = some found → found.isDirectory = false →
    (∀ dir ∈ dirs, rules.exclusion.excludes (Utf8.replaceBroken dir) = false) →
    rules.inclusion.selects (Utf8.replaceBroken name) = true →
    w'.read (path.joinAll (dirs ++ [name])) = w.read (path.joinAll (dirs ++ [name]))

/-- What is answered alike is answered alike below a subdirectory. -/
theorem Answers.inside (h : w.Answers w' rules path (.directory entries))
    (hfind : Listing.find? entries name = some node)
    (hkept : rules.exclusion.excludes (Utf8.replaceBroken name) = false) :
    w.Answers w' rules (path.join name) node := by
  have hat : ∀ {names found}, node.at? names = some found →
      (Node.directory entries).at? (name :: names) = some found := by
    intro names found hat
    rwa [Node.at?_cons hfind]
  constructor
  · intro dirs last target hlink hdirs
    exact h.ranked (name :: dirs) last target (hat hlink) (List.forall_mem_cons.2 ⟨hkept, hdirs⟩)
  · intro dirs last found hfound hleaf hdirs
    exact h.read (name :: dirs) last found (hat hfound) hleaf
      (List.forall_mem_cons.2 ⟨hkept, hdirs⟩)

/-- Of two nodes that differ out of sight at most, both are directories or neither is. -/
theorem isDirectory_hidden (h : ¬ rules.Hides name node node' → node.SameInSight rules node') :
    node'.isDirectory = node.isDirectory := by
  by_cases hhides : rules.Hides name node node'
  · rcases hhides with ⟨-, hdir, hdir'⟩ | ⟨-, _, _, rfl, rfl⟩
    · rw [hdir, hdir']
    · rfl
  · exact (h hhides).isDirectory_eq.symm

theorem ranksAsDirectory_hidden
    (h : ¬ rules.Hides name node node' → node.SameInSight rules node')
    (hanswer : ∀ target, node = .link target → w'.isDirectory path = w.isDirectory path) :
    w'.ranksAsDirectory path node' = w.ranksAsDirectory path node := by
  by_cases hhides : rules.Hides name node node'
  · rcases hhides with ⟨-, hdir, hdir'⟩ | ⟨-, _, _, rfl, rfl⟩
    · rw [Node.eq_directory hdir, Node.eq_directory hdir']
      rfl
    · rfl
  · cases h hhides with
    | leaf =>
      cases node with
      | link target => exact hanswer target rfl
      | _ => rfl
    | directory => rfl

/-- Walks of trees that differ out of sight pay the same visits. -/
theorem descend_hidden (h : node.SameInSight config.rules node') (hvalid : node.Valid)
    (hanswers : w.Answers w' config.rules path node) :
    w'.descend config root path node'.entries = w.descend config root path node.entries := by
  induction h generalizing path with
  | leaf node hleaf => rw [Node.entries_of_not_directory hleaf, descend_nil, descend_nil]
  | directory entries below hbelow ih =>
    obtain ⟨hlisting, htrees⟩ := Node.valid_directory_iff.1 hvalid
    have hfind : ∀ e ∈ entries, Listing.find? entries e.1 = some e.2 := by
      intro e he
      exact Listing.find?_of_mem hlisting.nodup he
    have hat : ∀ e ∈ entries, (Node.directory entries).at? ([] ++ [e.1]) = some e.2 := by
      intro e he
      exact (Node.at?_single _ e.1).trans (hfind e he)
    refine descend_congr (Listing.inOrder_map entries below config.order) ?_ ?_ ?_ ?_
    · intro e he
      exact isDirectory_hidden (hbelow e he)
    · intro e he
      refine ranksAsDirectory_hidden (hbelow e he) ?_
      intro target hlink
      exact hanswers.ranked [] e.1 target (hlink ▸ hat e he) (by simp)
    · intro e he hrank
      obtain ⟨hleaf, -⟩ := ranksAsDirectory_eq_false_iff.1 hrank
      unfold visitFile
      dsimp only
      split
      · next hselects =>
        have hread := hanswers.read [] e.1 e.2 (hat e he) hleaf (by simp) hselects
        rw [List.nil_append, Path.joinAll_cons, Path.joinAll_nil] at hread
        rw [hread]
      · rfl
    · intro e he hdir hkept
      have hshown : ¬ config.rules.Hides e.1 e.2 (below e) := by
        rintro (⟨hexcluded, -⟩ | ⟨-, _, _, hfile, -⟩)
        · rw [hkept] at hexcluded
          cases hexcluded
        · rw [hfile] at hdir
          cases hdir
      exact ih e he hshown (htrees e he) (hanswers.inside (hfind e he) hkept)

/-! ### Links -/

/-- Whether no link that a walk comes to leads into a directory that is left out, or to a file that is
not selected. -/
def LinksInSight (w : World) (rules : Rules) (trail : List Name) (entries : Listing) : Prop :=
  ∀ dirs name target, (Node.directory entries).at? (dirs ++ [name]) = some (.link target) →
    (∀ dir ∈ dirs, rules.exclusion.excludes (Utf8.replaceBroken dir) = false) →
    (∀ place, w.disk.Passes maxLinks (.named (trail ++ dirs)) [name] place →
      ¬ rules.LeavesOut trail entries place) ∧
    ∀ place slash,
      w.disk.chase true maxLinks (.named (trail ++ dirs)) [name] false = .found place slash →
        ¬ rules.PassesOver trail entries place

/-- Whether the limit on links stops no link that a walk comes to, but for those that go round in
circles. -/
def LinksUnlimited (w : World) (rules : Rules) (root : Path) (entries : Listing) : Prop :=
  ∀ dirs name target, (Node.directory entries).at? (dirs ++ [name]) = some (.link target) →
    (∀ dir ∈ dirs, rules.exclusion.excludes (Utf8.replaceBroken dir) = false) →
    w.locate true (root.joinAll (dirs ++ [name])) = .blocked .tooManyLinks →
      w.Endless (root.joinAll (dirs ++ [name]))

/-- Whether the limit on links plays no part in two worlds, or the same part: the root is reached over as
many links, or the links below it are stopped in neither world. -/
def LimitAlike (w w' : World) (rules : Rules) (root : Path) : Prop :=
  (∀ links ≤ maxLinks, w'.locateWithin links root = w.locateWithin links root) ∨
    ∀ place entries, w.follow root = .ok (place, .directory entries) →
      w.LinksUnlimited rules root entries ∧ w'.LinksUnlimited rules root entries

/-- An entry below the root is looked up in its directory with the links that are left. -/
theorem locate_concat {sub : Listing} (hdisk : w.disk.Valid)
    (hroot : w.follow root = .ok (.named trail, .directory entries))
    (hdirs : (Node.directory entries).at? dirs = some (.directory sub)) (hname : Name.Valid name) :
    ∃ left, left ≤ maxLinks ∧
      (∀ links, w.locateWithin links root = .blocked .tooManyLinks ↔ links + left < maxLinks) ∧
      w.locate true (root.joinAll (dirs ++ [name])) =
        w.disk.chase true left (.named (trail ++ dirs)) [name] false ∧
      ((w.locate true (root.joinAll (dirs ++ [name])) = .blocked .tooManyLinks →
          w.Endless (root.joinAll (dirs ++ [name]))) →
        ∀ more, left ≤ more →
          w.disk.chase true more (.named (trail ++ dirs)) [name] false =
            w.disk.chase true left (.named (trail ++ dirs)) [name] false) := by
  obtain ⟨-, -, -, htop, -⟩ := follow_eq_ok_iff.1 hroot
  have hvalid := hdisk.node? htop
  have hnames : ∀ n ∈ dirs ++ [name], Name.Valid n := by
    simpa [or_imp, forall_and, hname] using hvalid.names hdirs
  obtain ⟨left, hle, hlimit, hleft⟩ := locate_left hroot
  obtain ⟨hlocate, hmore⟩ := hleft (dirs ++ [name]) (by simp) hnames
  have hbelow : ∀ links, w.disk.chase true links (.named trail) (dirs ++ [name]) false =
      w.disk.chase true links (.named (trail ++ dirs)) [name] false := by
    intro links
    rw [Disk.chase_below htop hvalid hdirs (by simp), Place.below_named]
  simp only [hbelow] at hlocate hmore
  exact ⟨left, hle, hlimit, hlocate, hmore⟩

section

variable (hlinks : w.LinksInSight rules trail entries)
  (hlink : (Node.directory entries).at? (dirs ++ [name]) = some (.link target))
  (hkept : ∀ dir ∈ dirs, rules.exclusion.excludes (Utf8.replaceBroken dir) = false)

include hlinks hlink hkept

/-- A link is walked in the same way. -/
theorem chase_hidden (htop : w.disk.node? (.named trail) = some (.directory entries))
    (hsame : (Node.directory entries).SameInSight rules (.directory entries')) {links : Nat}
    (hle : links ≤ maxLinks) :
    (w.disk.relist trail entries').chase true links (.named (trail ++ dirs)) [name] false =
      w.disk.chase true links (.named (trail ++ dirs)) [name] false := by
  obtain ⟨hthrough, -⟩ := hlinks dirs name target hlink hkept
  refine Disk.chase_eq_of_passes ?_ true false
  intro passed hpasses other
  exact Disk.turn_relist htop hsame (hthrough passed (hpasses.mono hle)) other

/-- A link ends in sight. -/
theorem inSight_of_chase {there : Place} {slash : Bool} {links : Nat} (hle : links ≤ maxLinks)
    (h : w.disk.chase true links (.named (trail ++ dirs)) [name] false = .found there slash) :
    ∃ here, there = .named here ∧ rules.InSight trail entries here := by
  obtain ⟨hthrough, -⟩ := hlinks dirs name target hlink hkept
  refine Disk.chase_induct
    (motive := fun place => ∃ here, place = .named here ∧ rules.InSight trail entries here) ?_ ?_ ?_ h
  · refine ⟨_, rfl, ?_⟩
    intro names hnames hout
    obtain rfl := List.append_cancel_left hnames
    exact Node.not_leftOut_of_kept hkept hout.of_dropLast
  · refine ⟨[], rfl, ?_⟩
    intro names hnames hout
    obtain ⟨-, rfl⟩ := List.append_eq_nil_iff.1 hnames.symm
    exact Node.not_leftOut_nil hout
  · rintro passed other next hpasses ⟨here, rfl, -⟩ hturn
    exact Rules.inSight_of_turn (hthrough _ (hpasses.mono hle)) hturn

/-- A link is looked up with the same result. -/
theorem locate_hidden (hdisk : w.disk.Valid) (hdisk' : (w.disk.relist trail entries').Valid)
    (hroot : w.follow root = .ok (.named trail, .directory entries))
    (hroot' : { w with disk := w.disk.relist trail entries' }.follow root =
      .ok (.named trail, .directory entries'))
    (hsame : (Node.directory entries).SameInSight rules (.directory entries'))
    (hlimit : w.LimitAlike { w with disk := w.disk.relist trail entries' } rules root) :
    { w with disk := w.disk.relist trail entries' }.locate true (root.joinAll (dirs ++ [name])) =
        w.locate true (root.joinAll (dirs ++ [name])) ∧
      ∀ there slash, w.locate true (root.joinAll (dirs ++ [name])) = .found there slash →
        (∃ here, there = .named here ∧ rules.InSight trail entries here) ∧
          ¬ rules.PassesOver trail entries there := by
  obtain ⟨-, -, -, htop, -⟩ := follow_eq_ok_iff.1 hroot
  obtain ⟨sub, hdirs, hfind⟩ := Node.at?_concat_eq_some hlink
  have hname := ((hdisk.node? htop).at? hdirs).listing.name_of_find? hfind
  obtain ⟨sub', hdirs'⟩ := hsame.directory_at?
    (fun hout => Node.not_leftOut_of_kept hkept hout.of_dropLast) hdirs
  obtain ⟨left, hle, hbound, hlocate, hmore⟩ := locate_concat hdisk hroot hdirs hname
  obtain ⟨left', hle', hbound', hlocate', hmore'⟩ := locate_concat hdisk' hroot' hdirs' hname
  have hchase : ∀ links, links ≤ maxLinks →
      (w.disk.relist trail entries').chase true links (.named (trail ++ dirs)) [name] false =
        w.disk.chase true links (.named (trail ++ dirs)) [name] false :=
    fun _ => chase_hidden hlinks hlink hkept htop hsame
  refine ⟨?_, ?_⟩
  · rw [hlocate, hlocate']
    rcases hlimit with halike | hunlimited
    · -- the root leaves as many links in both worlds
      have hstopped : ∀ links ≤ maxLinks,
          (links + left' < maxLinks ↔ links + left < maxLinks) := by
        intro links hlinks
        rw [← hbound, ← hbound', halike links hlinks]
      obtain rfl : left = left' := by
        have hfirst := hstopped (maxLinks - left) (Nat.sub_le ..)
        have hsecond := hstopped (maxLinks - left') (Nat.sub_le ..)
        omega
      exact hchase left hle
    · -- no number of links makes a difference
      obtain ⟨hunlimited, hunlimited'⟩ := hunlimited _ _ hroot
      rcases Nat.le_total left left' with hless | hless
      · rw [hchase left' hle']
        exact hmore (hunlimited dirs name target hlink hkept) left' hless
      · rw [← hchase left hle]
        exact (hmore' (hunlimited' dirs name target hlink hkept) left hless).symm
  · intro there slash hfound
    rw [hlocate] at hfound
    refine ⟨inSight_of_chase hlinks hlink hkept hle hfound, ?_⟩
    have hblocked : w.disk.chase true left (.named (trail ++ dirs)) [name] false ≠
        .blocked .tooManyLinks := by
      rw [hfound]
      simp
    rw [← Disk.chase_mono hblocked hle] at hfound
    exact (hlinks dirs name target hlink hkept).2 there slash hfound

end

/-- A root to which the way leads through no directory that is left out is reached over as many links. -/
theorem limitAlike_of_passes (htop : w.disk.node? (.named trail) = some (.directory entries))
    (hsame : (Node.directory entries).SameInSight rules (.directory entries'))
    (hroot : ∀ passed, w.disk.Passes maxLinks (Disk.origin root w.cwd) root.steps passed →
      ¬ rules.LeavesOut trail entries passed) :
    w.LimitAlike { w with disk := w.disk.relist trail entries' } rules root := by
  refine .inl ?_
  intro links hle
  refine Disk.chase_eq_of_passes ?_ true _
  intro passed hpasses other
  exact Disk.turn_relist htop hsame (hroot passed (hpasses.mono hle)) other

/-- A path that leads to the same place leads to a directory in both worlds or in neither, and is read
with the same result, when what it leads to is in sight and no file that is not selected. -/
theorem answers_of_locate (htop : w.disk.node? (.named trail) = some (.directory entries))
    (hsame : (Node.directory entries).SameInSight rules (.directory entries'))
    (hlocate : { w with disk := w.disk.relist trail entries' }.locate true p = w.locate true p)
    (hends : ∀ there slash, w.locate true p = .found there slash →
      (∃ here, there = .named here ∧ rules.InSight trail entries here) ∧
        ¬ rules.PassesOver trail entries there) :
    { w with disk := w.disk.relist trail entries' }.isDirectory p = w.isDirectory p ∧
      { w with disk := w.disk.relist trail entries' }.read p = w.read p := by
  unfold isDirectory read follow
  rw [hlocate]
  cases hrefusal : p.refusal? with
  | some cause => exact ⟨rfl, rfl⟩
  | none =>
    cases hgoal : w.locate true p with
    | vacant dir name slash => exact ⟨rfl, rfl⟩
    | blocked cause => exact ⟨rfl, rfl⟩
    | found there slash =>
      obtain ⟨⟨here, rfl, hsight⟩, hselected⟩ := hends there slash hgoal
      have hlook := Disk.sight_relist htop hsame hsight
      simp only [settle]
      cases hnode : w.disk.node? (.named here) with
      | none =>
        rw [hnode] at hlook
        rw [Sight.eq_none_of_nothing hlook]
        exact ⟨rfl, rfl⟩
      | some node =>
        cases hdir : node.isDirectory with
        | false =>
          rw [Disk.leaf_relist htop hsame hsight hselected hnode hdir]
          exact ⟨rfl, rfl⟩
        | true =>
          rw [hnode, Node.eq_directory hdir] at hlook
          obtain ⟨listed, hlisted⟩ := Sight.eq_directory_of_directory hlook
          rw [hlisted, Node.eq_directory hdir]
          simp [Node.isDirectory]

/-- A selected file is the same. -/
theorem selected_hidden (htop : w.disk.node? (.named trail) = some (.directory entries))
    (hsame : (Node.directory entries).SameInSight rules (.directory entries'))
    (hat : (Node.directory entries).at? (dirs ++ [name]) = some node)
    (hleaf : node.isDirectory = false)
    (hkept : ∀ dir ∈ dirs, rules.exclusion.excludes (Utf8.replaceBroken dir) = false)
    (hselects : rules.inclusion.selects (Utf8.replaceBroken name) = true) :
    (Node.directory entries').at? (dirs ++ [name]) = some node := by
  have hnode := (Disk.node?_append htop (dirs ++ [name])).trans hat
  have hsight : rules.InSight trail entries (trail ++ (dirs ++ [name])) := by
    intro names hnames hout
    obtain rfl := List.append_cancel_left hnames
    rw [List.dropLast_concat] at hout
    exact Node.not_leftOut_of_kept hkept hout
  have hselected : ¬ rules.PassesOver trail entries (.named (trail ++ (dirs ++ [name]))) := by
    rintro ⟨dirs', name', content, hplace, -, hname⟩
    have hnames := List.append_cancel_left (Place.named.inj hplace)
    obtain rfl := List.singleton_inj.1 (List.append_inj' hnames rfl).2
    rw [hselects] at hname
    cases hname
  rw [← Disk.node?_relist htop]
  exact Disk.leaf_relist htop hsame hsight hselected hnode hleaf

/-- Where links do not bring anything hidden into sight, every question is answered alike. -/
theorem answers_hidden (hdisk : w.disk.Valid) (hdisk' : (w.disk.relist trail entries').Valid)
    (hroot : w.follow root = .ok (.named trail, .directory entries))
    (hroot' : { w with disk := w.disk.relist trail entries' }.follow root =
      .ok (.named trail, .directory entries'))
    (hsame : (Node.directory entries).SameInSight rules (.directory entries'))
    (hlinks : w.LinksInSight rules trail entries)
    (hlimit : w.LimitAlike { w with disk := w.disk.relist trail entries' } rules root) :
    w.Answers { w with disk := w.disk.relist trail entries' } rules root (.directory entries) := by
  obtain ⟨-, -, -, htop, -⟩ := follow_eq_ok_iff.1 hroot
  constructor
  · intro dirs name target hat hkept
    obtain ⟨hlocate, hends⟩ :=
      locate_hidden hlinks hat hkept hdisk hdisk' hroot hroot' hsame hlimit
    exact (answers_of_locate htop hsame hlocate hends).1
  · intro dirs name found hat hleaf hkept hselects
    by_cases hlink : ∃ target, found = .link target
    · obtain ⟨target, rfl⟩ := hlink
      obtain ⟨hlocate, hends⟩ :=
        locate_hidden hlinks hat hkept hdisk hdisk' hroot hroot' hsame hlimit
      exact (answers_of_locate htop hsame hlocate hends).2
    · have hat' := selected_hidden htop hsame hat hleaf hkept hselects
      rw [read_below hdisk hroot hat hleaf (not_exists.1 hlink),
        read_below hdisk' hroot' hat' hleaf (not_exists.1 hlink)]

/-! ### The collection -/

/-- Whether a disk is the same as that of a world but for what the rules hide below the directory to which
`root` leads, in both of them. -/
inductive SameOutside (w : World) (d : Disk) (rules : Rules) (root : Path) : Prop
  | same (h : d = w.disk)
  | hidden {trail : List Name} {entries entries' : Listing}
      (leads : w.follow root = .ok (.named trail, .directory entries))
      (leads' : { w with disk := d }.follow root = .ok (.named trail, .directory entries'))
      (replaced : d = w.disk.relist trail entries')
      (inside : (Node.directory entries).SameInSight rules (.directory entries'))

/-- What lies below directories that are left out, and what files hold that are not selected, does not
show in a collection: on two disks that differ in nothing else below the root it is the same, its files
with their contents, its failures and so its document. No link may lead a walk into such a directory
or to such a file, and the limit on links must stop a walk in both worlds or in none. -/
theorem collect_hidden (w : World) (d : Disk) (config : Config) (root : Path) (hdisk : w.disk.Valid)
    (hdisk' : d.Valid) (hsame : w.SameOutside d config.rules root)
    (hlinks : ∀ trail entries, w.follow root = .ok (.named trail, .directory entries) →
      w.LinksInSight config.rules trail entries)
    (hlimit : w.LimitAlike { w with disk := d } config.rules root) :
    { w with disk := d }.collect config root = w.collect config root := by
  cases hsame with
  | same h => rw [h]
  | @hidden trail entries entries' leads leads' replaced inside =>
    subst replaced
    obtain ⟨-, -, -, htop, -⟩ := follow_eq_ok_iff.1 leads
    rw [collect_of_follow leads, collect_of_follow leads']
    exact congrArg Collection.ofVisits (descend_hidden inside (hdisk.node? htop)
      (answers_hidden hdisk hdisk' leads leads' inside (hlinks trail entries leads) hlimit))

end World

/-! ### Links that stand side by side -/

/-- Whether a link leads to an entry beside it; all other nodes lead nowhere. -/
def Node.leadsAside : Node → Bool
  | .link target => !target.isAbsolute && target.steps.length ≤ 1
  | _ => true

/-- Walks of links in the root directory that lead to entries beside them stay in the root directory. -/
theorem Disk.Passes.eq_root {d : Disk} (hflat : ∀ e ∈ d.entries, e.2.leadsAside = true) {links : Nat}
    {place passed : Place} {names : List Name} (h : d.Passes links place names passed)
    (hplace : place = .named []) (hnames : names.length ≤ 1) : passed = .named [] := by
  induction h with
  | here => exact hplace
  | @onward links place there passed name rest turn later _ =>
    obtain rfl : rest = [] := by simpa using hnames
    cases later
  | @led links place passed name rest target turn _ ih =>
    subst hplace
    obtain rfl : rest = [] := by simpa using hnames
    have hfind := node?_of_turn_link turn
    rw [node?_child] at hfind
    have haside := hflat _ (Listing.mem_of_find? hfind)
    simp only [Node.leadsAside, Bool.and_eq_true, Bool.not_eq_true', decide_eq_true_eq] at haside
    refine ih ?_ (by simpa using haside.2)
    simp [origin, haside.1]

namespace World

/-- Links in the root directory that lead to a selected file beside them bring nothing into sight, when
the rules leave out all directories beside them. -/
theorem linksInSight_of_aside {w : World} {rules : Rules} (last : Name)
    (hflat : ∀ e ∈ w.disk.entries, e.2.leadsAside = true)
    (hdirs : ∀ e ∈ w.disk.entries, e.2.isDirectory = true →
      rules.exclusion.excludes (Utf8.replaceBroken e.1) = true)
    (honto : ∀ e ∈ w.disk.entries, e.2.isDirectory = true ∨ Sight.of (some e.2) = .leaf ∨
      w.disk.chase true maxLinks (.named []) [e.1] false = .found (.named [last]) false)
    (hselected : rules.inclusion.selects (Utf8.replaceBroken last) = true) :
    w.LinksInSight rules [] w.disk.entries := by
  intro dirs name target hlink hkept
  obtain rfl : dirs = [] := by
    cases dirs with
    | nil => rfl
    | cons dir dirs =>
      obtain ⟨_, child, hroot, hfind, hchild⟩ := Node.at?_cons_eq_some hlink
      obtain rfl := Node.directory.inj hroot
      obtain ⟨sub, hsub, -⟩ := Node.at?_concat_eq_some hchild
      have hdir : child.isDirectory = true := by
        cases dirs with
        | nil =>
          obtain rfl := Option.some.inj hsub
          rfl
        | cons next dirs =>
          obtain ⟨_, _, rfl, -⟩ := Node.at?_cons_eq_some hsub
          rfl
      have hname := hdirs _ (Listing.mem_of_find? hfind) hdir
      rw [hkept dir (List.mem_cons_self ..)] at hname
      cases hname
  obtain ⟨listed, hroot, hfind⟩ := Node.at?_concat_eq_some hlink
  obtain rfl := Node.directory.inj (Option.some.inj hroot)
  constructor
  · rintro place hpasses ⟨names, hplace, hout⟩
    rw [hpasses.eq_root hflat rfl (by simp)] at hplace
    obtain rfl := List.append_eq_nil_iff.1 (Place.named.inj hplace).symm |>.2
    exact Node.not_leftOut_nil hout
  · rintro place slash hfound ⟨front, other, content, hplace, -, hother⟩
    rcases honto _ (Listing.mem_of_find? hfind) with hdir | hleaf | hend
    · cases hdir
    · cases hleaf
    · rw [List.append_nil, hend] at hfound
      obtain ⟨rfl, -⟩ := Disk.Goal.found.inj hfound
      have hnames : [] ++ [last] = front ++ [other] := Place.named.inj hplace
      obtain rfl := List.singleton_inj.1 (List.append_inj' hnames rfl).2
      rw [hselected] at hother
      cases hother

/-- Rules that select `x` and `V` and leave `b` out. -/
def pickyRules : Rules where
  inclusion := { extensions := [], filenames := ["x", "V"] }
  exclusion := { directories := ["b"] }

/-- The system around a disk whose root lists a directory `b`, which holds `inside`, and other entries
after it. -/
def beside (inside rest : Listing) : World where
  disk := ⟨([0x62], .directory inside) :: rest⟩
  cwd := .named []
  homeVariable := none
  accountHome := "/"

/-- What the directory `b` holds is hidden, and what files after it hold that are not selected. -/
theorem sameInSight_beside {inside inside' rest : Listing} {below : Name × Node → Node}
    (hrest : ∀ e ∈ rest, e.1 ≠ [0x62] ∧ e.2.isDirectory = false ∧
      (below e = e.2 ∨ pickyRules.Hides e.1 e.2 (below e))) :
    (Node.directory (beside inside rest).disk.entries).SameInSight pickyRules
      (.directory (beside inside' (rest.map fun e => (e.1, below e))).disk.entries) := by
  have hentries : (beside inside' (rest.map fun e => (e.1, below e))).disk.entries =
      (beside inside rest).disk.entries.map fun e =>
        (e.1, if e.1 = [0x62] then .directory inside' else below e) := by
    rw [beside, beside, List.map_cons, if_pos rfl]
    refine congrArg (List.cons _) (List.map_congr_left ?_)
    intro e he
    rw [if_neg (hrest e he).1]
  rw [hentries]
  have hname : pickyRules.exclusion.excludes (Utf8.replaceBroken [0x62]) = true := by decide
  refine .directory _ _ ?_
  intro e he hshown
  rcases List.mem_cons.1 he with rfl | he
  · rw [if_pos rfl] at hshown
    exact absurd (.inl ⟨hname, rfl, rfl⟩) hshown
  · obtain ⟨hname, hleaf, hsame⟩ := hrest e he
    rw [if_neg hname] at hshown ⊢
    rw [hsame.resolve_right hshown]
    exact .leaf e.2 hleaf

/-- A link `x` to the file `V`, and a file `n` that is not selected, after a directory that is left
out. -/
theorem collect_hidden_beside :
    let w := beside [([0x56], .file [0x30])]
      [([0x78], .link ⟨[0x56]⟩), ([0x6E], .file [0x32]), ([0x56], .file [0x31])]
    let d := (beside [([0x61], .link ⟨[0x61]⟩)]
      [([0x78], .link ⟨[0x56]⟩), ([0x6E], .file [0x33, 0x33]), ([0x56], .file [0x31])]).disk
    w.disk.Valid ∧ d.Valid ∧ w.SameOutside d pickyRules (.ofString "/") ∧
      (∀ trail entries, w.follow (.ofString "/") = .ok (.named trail, .directory entries) →
        w.LinksInSight pickyRules trail entries) ∧
      w.LimitAlike { w with disk := d } pickyRules (.ofString "/") ∧
      { w with disk := d }.collect ⟨pickyRules, .sorted⟩ (.ofString "/") =
        w.collect ⟨pickyRules, .sorted⟩ (.ofString "/") := by
  intro w d
  have hroot : w.follow (.ofString "/") = .ok (.named [], .directory w.disk.entries) := rfl
  have hinside : (Node.directory w.disk.entries).SameInSight pickyRules (.directory d.entries) := by
    refine @sameInSight_beside _ _ _ (fun e => if e.1 = [0x6E] then .file [0x33, 0x33] else e.2) ?_
    intro e he
    simp only [List.mem_cons, List.not_mem_nil, or_false] at he
    rcases he with rfl | rfl | rfl
    · exact ⟨by decide, rfl, .inl rfl⟩
    · exact ⟨by decide, rfl, .inr (.inr ⟨by decide, _, _, rfl, rfl⟩)⟩
    · exact ⟨by decide, rfl, .inl rfl⟩
  have hsame : w.SameOutside d pickyRules (.ofString "/") := .hidden hroot rfl rfl hinside
  have hlinks : ∀ trail entries,
      w.follow (.ofString "/") = .ok (.named trail, .directory entries) →
      w.LinksInSight pickyRules trail entries := by
    intro trail entries hfollow
    obtain ⟨rfl, rfl⟩ : [] = trail ∧ w.disk.entries = entries := by
      simpa using Except.ok.inj (hroot.symm.trans hfollow)
    exact linksInSight_of_aside [0x56] (by decide) (by decide) (by decide) (by decide)
  have htop : w.disk.node? (.named []) = some (.directory w.disk.entries) := rfl
  have hlimit : w.LimitAlike { w with disk := d } pickyRules (.ofString "/") := by
    refine limitAlike_of_passes htop hinside ?_
    intro passed hpasses
    cases hpasses
  exact ⟨by decide, by decide, hsame, hlinks, hlimit,
    collect_hidden w d ⟨pickyRules, .sorted⟩ (.ofString "/") (by decide) (by decide) hsame hlinks
      hlimit⟩

/-- A link `x` that leads over thirty-eight more links, each beside the next, to the file `V`. -/
def chainOfLinks : Listing :=
  ([0x78], .link ⟨[0x30]⟩) ::
    (List.range 38).map (fun i => ([UInt8.ofNat (0x30 + i)], .link ⟨[UInt8.ofNat (0x31 + i)]⟩)) ++
    [([0x56], .file [0x31])]

/-- When the way to the root itself leads through a directory that is left out, over a link to the root in
one world and over one link more in the other, a link below the root that is followed to the limit in
the one world is stopped by it in the other. -/
theorem collect_hidden_stopped_by_limit :
    let w := beside [([0x6C], .link ⟨Bytes.dotDot⟩)] chainOfLinks
    let d := (beside [([0x6C], .link ⟨[0x6D]⟩), ([0x6D], .link ⟨Bytes.dotDot⟩)] chainOfLinks).disk
    w.disk.Valid ∧ d.Valid ∧ w.SameOutside d pickyRules (.ofString "b/l") ∧
      (∀ trail entries, w.follow (.ofString "b/l") = .ok (.named trail, .directory entries) →
        w.LinksInSight pickyRules trail entries) ∧
      (w.collect ⟨pickyRules, .discovery⟩ (.ofString "b/l")).failures = [] ∧
      ({ w with disk := d }.collect ⟨pickyRules, .discovery⟩ (.ofString "b/l")).failures =
        [.read (.ofString "b/l/x") (.os .tooManyLinks)] := by
  intro w d
  have hroot : w.follow (.ofString "b/l") = .ok (.named [], .directory w.disk.entries) := rfl
  have hrest : ∀ e ∈ chainOfLinks, e.1 ≠ [0x62] ∧ e.2.isDirectory = false := by decide +kernel
  have hsame : w.SameOutside d pickyRules (.ofString "b/l") := by
    refine .hidden hroot rfl rfl ?_
    have hsame := @sameInSight_beside [([0x6C], .link ⟨Bytes.dotDot⟩)]
      [([0x6C], .link ⟨[0x6D]⟩), ([0x6D], .link ⟨Bytes.dotDot⟩)] chainOfLinks Prod.snd ?_
    · rwa [List.map_id'] at hsame
    · exact fun e he => ⟨(hrest e he).1, (hrest e he).2, .inl rfl⟩
  have hlinks : ∀ trail entries,
      w.follow (.ofString "b/l") = .ok (.named trail, .directory entries) →
      w.LinksInSight pickyRules trail entries := by
    intro trail entries hfollow
    obtain ⟨rfl, rfl⟩ : [] = trail ∧ w.disk.entries = entries := by
      simpa using Except.ok.inj (hroot.symm.trans hfollow)
    exact linksInSight_of_aside [0x56] (by decide +kernel) (by decide +kernel) (by decide +kernel)
      (by decide)
  exact ⟨by decide +kernel, by decide +kernel, hsame, hlinks, by decide +kernel, by decide +kernel⟩

end World

end SourceBundle
