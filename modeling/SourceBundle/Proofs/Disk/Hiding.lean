import SourceBundle.Proofs.Disk.Growth
import SourceBundle.Proofs.Disk.Lookup
import SourceBundle.Rules.Basic

/-!
Disks that differ out of sight. Rules hide what lies below a directory that they leave out, and what a
file holds that they do not select. Two trees that differ only there list the same names, and at every
chain of names that does not lead into a directory left out the same stands in both. So a walk that
looks up no name in such a directory is told the same by both disks.
-/

namespace SourceBundle

/-- Whether the rules hide the difference between two nodes of one name: two directories that are left
out, or two files that are not selected. -/
def Rules.Hides (rules : Rules) (name : Name) (a b : Node) : Prop :=
  rules.exclusion.excludes (Utf8.replaceBroken name) = true ∧ a.isDirectory = true ∧
      b.isDirectory = true ∨
    rules.inclusion.selects (Utf8.replaceBroken name) = false ∧
      ∃ content content', a = .file content ∧ b = .file content'

/-- Two trees that differ only in what the rules hide. -/
inductive Node.SameInSight (rules : Rules) : Node → Node → Prop
  | leaf (node : Node) (hleaf : node.isDirectory = false) : SameInSight rules node node
  | directory (entries : Listing) (below : Name × Node → Node)
      (hbelow : ∀ e ∈ entries, ¬ rules.Hides e.1 e.2 (below e) → SameInSight rules e.2 (below e)) :
      SameInSight rules (.directory entries) (.directory (entries.map fun e => (e.1, below e)))

/-- Whether a chain of names leads from a node to a directory that is left out, or further down. -/
def Node.LeftOut (exclusion : Exclusion) (node : Node) (names : List Name) : Prop :=
  ∃ dirs name sub more, names = dirs ++ name :: more ∧
    node.at? (dirs ++ [name]) = some (.directory sub) ∧
    exclusion.excludes (Utf8.replaceBroken name) = true

/-- What is seen of a node at the end of a chain of names in two trees that differ out of sight. -/
inductive Rules.Sees (rules : Rules) : List Name → Option Node → Option Node → Prop
  | nothing (names : List Name) : Sees rules names none none
  | directory (names : List Name) (entries entries' : Listing) :
      Sees rules names (some (.directory entries)) (some (.directory entries'))
  | leaf (names : List Name) (node : Node) (hleaf : node.isDirectory = false) :
      Sees rules names (some node) (some node)
  | unselected (dirs : List Name) (name : Name) (content content' : Bytes)
      (hname : rules.inclusion.selects (Utf8.replaceBroken name) = false) :
      Sees rules (dirs ++ [name]) (some (.file content)) (some (.file content'))

variable {rules : Rules}

/-! ### Trees -/

theorem Rules.Sees.cons {names : List Name} {a b : Option Node} (h : rules.Sees names a b)
    (name : Name) : rules.Sees (name :: names) a b := by
  cases h with
  | nothing => exact .nothing _
  | directory => exact .directory ..
  | leaf _ node hleaf => exact .leaf _ node hleaf
  | unselected dirs last content content' hlast =>
    exact .unselected (name :: dirs) last content content' hlast

namespace Node

variable {a b child : Node} {entries entries' : Listing} {name : Name} {names more : List Name}
  {exclusion : Exclusion}

theorem not_leftOut_nil : ¬ a.LeftOut exclusion [] := by
  rintro ⟨dirs, name, sub, more, hnames, -⟩
  cases dirs <;> cases hnames

theorem LeftOut.append (h : a.LeftOut exclusion names) (more : List Name) :
    a.LeftOut exclusion (names ++ more) := by
  obtain ⟨dirs, name, sub, rest, rfl, hat, hname⟩ := h
  exact ⟨dirs, name, sub, rest ++ more, by simp, hat, hname⟩

theorem LeftOut.of_dropLast (h : a.LeftOut exclusion names.dropLast) : a.LeftOut exclusion names := by
  rcases List.eq_nil_or_concat' names with rfl | ⟨front, last, rfl⟩
  · exact h
  · rw [List.dropLast_concat] at h
    exact h.append [last]

/-- What is left out below an entry is left out below the directory. -/
theorem LeftOut.cons (h : child.LeftOut exclusion names)
    (hfind : Listing.find? entries name = some child) :
    (Node.directory entries).LeftOut exclusion (name :: names) := by
  obtain ⟨dirs, last, sub, rest, rfl, hat, hlast⟩ := h
  refine ⟨name :: dirs, last, sub, rest, rfl, ?_, hlast⟩
  rw [List.cons_append, at?_cons hfind, hat]

theorem leftOut_of_find? (hfind : Listing.find? entries name = some child)
    (hdir : child.isDirectory = true)
    (hname : exclusion.excludes (Utf8.replaceBroken name) = true) (more : List Name) :
    (Node.directory entries).LeftOut exclusion (name :: more) := by
  refine ⟨[], name, child.entries, more, rfl, ?_, hname⟩
  rw [List.nil_append, at?_cons hfind, ← eq_directory hdir]
  rfl

theorem SameInSight.isDirectory_eq (h : a.SameInSight rules b) :
    a.isDirectory = b.isDirectory := by
  cases h <;> rfl

/-- At the end of a chain of names that does not lead below a directory left out, the same is seen in
both trees. -/
theorem SameInSight.at? (h : a.SameInSight rules b)
    (hsight : ¬ a.LeftOut rules.exclusion names.dropLast) :
    rules.Sees names (a.at? names) (b.at? names) := by
  induction names generalizing a b with
  | nil =>
    cases h with
    | leaf _ hleaf => exact .leaf _ _ hleaf
    | directory => exact .directory ..
  | cons name rest ih =>
    cases h with
    | leaf _ hleaf =>
      rw [Node.at?, entries_of_not_directory hleaf]
      exact .nothing _
    | directory entries below hbelow =>
      simp only [Node.at?, Node.entries, Listing.find?_map]
      cases hfind : Listing.find? entries name with
      | none => exact .nothing _
      | some child =>
        rw [Option.map_some, Option.bind_some, Option.bind_some]
        have hchild := hbelow _ (Listing.mem_of_find? hfind)
        generalize below (name, child) = child' at hchild ⊢
        by_cases hhides : rules.Hides name child child'
        · rcases hhides with ⟨hname, hdir, hdir'⟩ | ⟨hname, content, content', rfl, rfl⟩
          · cases rest with
            | nil =>
              rw [eq_directory hdir, eq_directory hdir']
              exact .directory ..
            | cons next rest => exact absurd (leftOut_of_find? hfind hdir hname _) hsight
          · cases rest with
            | nil => exact .unselected [] name content content' hname
            | cons next rest => exact .nothing _
        · refine (ih (hchild hhides) ?_).cons name
          intro hout
          cases rest with
          | nil => exact not_leftOut_nil hout
          | cons next rest => exact hsight (hout.cons hfind)

/-- A directory in sight is a directory in both trees. -/
theorem SameInSight.directory_at? (h : a.SameInSight rules b)
    (hsight : ¬ a.LeftOut rules.exclusion names.dropLast)
    (hat : a.at? names = some (.directory entries)) :
    ∃ entries', b.at? names = some (.directory entries') := by
  have hsees := h.at? hsight
  rw [hat] at hsees
  generalize b.at? names = found at hsees
  cases hsees with
  | directory _ _ entries' => exact ⟨entries', rfl⟩
  | leaf _ _ hleaf => cases hleaf

end Node

/-! ### Places -/

/-- Whether a place is in a directory that is left out below the directory at `trail`: that directory
itself, or further down. -/
def Rules.LeavesOut (rules : Rules) (trail : List Name) (entries : Listing) (place : Place) : Prop :=
  ∃ names, place = .named (trail ++ names) ∧
    (Node.directory entries).LeftOut rules.exclusion names

/-- Whether at a place below the directory at `trail` stands a file that is not selected. -/
def Rules.PassesOver (rules : Rules) (trail : List Name) (entries : Listing) (place : Place) : Prop :=
  ∃ dirs name content, place = .named (trail ++ (dirs ++ [name])) ∧
    (Node.directory entries).at? (dirs ++ [name]) = some (.file content) ∧
    rules.inclusion.selects (Utf8.replaceBroken name) = false

/-- Whether a place is not below a directory that is left out below the directory at `trail`. -/
def Rules.InSight (rules : Rules) (trail : List Name) (entries : Listing) (there : List Name) : Prop :=
  ∀ names, there = trail ++ names →
    ¬ (Node.directory entries).LeftOut rules.exclusion names.dropLast

section

variable {trail here there : List Name} {name : Name} {entries : Listing} {next : Place} {d : Disk}

/-- What is not left out is in sight, and so are the directory above it and all that it lists. -/
theorem Rules.inSight_of_not_leavesOut (h : ¬ rules.LeavesOut trail entries (.named here)) :
    rules.InSight trail entries here := by
  rintro names rfl hout
  exact h ⟨names, rfl, hout.of_dropLast⟩

theorem Rules.inSight_dropLast (h : ¬ rules.LeavesOut trail entries (.named here)) :
    rules.InSight trail entries here.dropLast := by
  rcases List.eq_nil_or_concat' here with rfl | ⟨front, last, rfl⟩
  · exact inSight_of_not_leavesOut h
  · rw [List.dropLast_concat]
    rintro names rfl hout
    exact h ⟨names ++ [last], by rw [List.append_assoc], hout.of_dropLast.append [last]⟩

theorem Rules.inSight_concat (h : ¬ rules.LeavesOut trail entries (.named here)) (name : Name) :
    rules.InSight trail entries (here ++ [name]) := by
  intro names hnames hout
  rcases List.eq_nil_or_concat' names with rfl | ⟨front, last, rfl⟩
  · exact Node.not_leftOut_nil hout
  · rw [← List.append_assoc] at hnames
    rw [List.dropLast_concat] at hout
    exact h ⟨front, congrArg Place.named (List.append_inj' hnames rfl).1, hout⟩

/-- From a place that is not left out a walk moves to one that is in sight. -/
theorem Rules.inSight_of_turn (h : ¬ rules.LeavesOut trail entries (.named here))
    (hturn : d.turn (.named here) name = .move next) :
    ∃ there, next = .named there ∧ rules.InSight trail entries there := by
  rw [Disk.turn_named] at hturn
  split at hturn
  · split at hturn
    · exact ⟨here, (Turn.move.inj hturn).symm, inSight_of_not_leavesOut h⟩
    split at hturn
    · exact ⟨here.dropLast, (Turn.move.inj hturn).symm, inSight_dropLast h⟩
    split at hturn
    · cases hturn
    split at hturn
    · cases hturn
    · cases hturn
    · exact ⟨here ++ [name], (Turn.move.inj hturn).symm, inSight_concat h name⟩
  · cases hturn

end

/-! ### Disks -/

namespace Disk

variable {d : Disk} {trail here there : List Name} {name : Name} {place : Place} {node : Node}
  {entries entries' : Listing}

/-- The disk on which the directory at `trail` lists something else. -/
def relist (d : Disk) (trail : List Name) (entries : Listing) : Disk :=
  d.modify (fun _ => entries) trail

variable (hat : d.node? (.named trail) = some (.directory entries))
  (hsame : (Node.directory entries).SameInSight rules (.directory entries'))

include hat

theorem node?_relist (names : List Name) :
    (d.relist trail entries').node? (.named (trail ++ names)) =
      (Node.directory entries').at? names := by
  rw [node?, relist, root_modify]
  exact Node.at?_modify_append _ hat names

include hsame

/-- What is in sight looks the same. -/
theorem sight_relist (hsight : rules.InSight trail entries there) :
    Sight.of ((d.relist trail entries').node? (.named there)) = Sight.of (d.node? (.named there)) := by
  by_cases hbelow : ∃ names, there = trail ++ names
  · obtain ⟨names, rfl⟩ := hbelow
    rw [node?_relist hat, node?_append hat]
    have hsees := hsame.at? (hsight names rfl)
    generalize (Node.directory entries).at? names = found at hsees ⊢
    generalize (Node.directory entries').at? names = found' at hsees ⊢
    cases hsees <;> rfl
  · rw [← Node.sight_bare (d.node? _), ← Node.sight_bare ((d.relist trail entries').node? _)]
    simp only [node?, relist, root_modify]
    rw [Node.bare_modify _ (not_exists.1 hbelow)]

/-- What is in sight and no directory is the same, unless it is a file that is not selected. -/
theorem leaf_relist (hsight : rules.InSight trail entries there)
    (hselected : ¬ rules.PassesOver trail entries (.named there))
    (hnode : d.node? (.named there) = some node) (hleaf : node.isDirectory = false) :
    (d.relist trail entries').node? (.named there) = some node := by
  by_cases hbelow : ∃ names, there = trail ++ names
  · obtain ⟨names, rfl⟩ := hbelow
    rw [node?_append hat] at hnode
    rw [node?_relist hat]
    have hsees := hsame.at? (hsight names rfl)
    rw [hnode] at hsees
    generalize (Node.directory entries').at? names = found at hsees
    cases hsees with
    | directory => cases hleaf
    | leaf => rfl
    | unselected dirs name content content' hname =>
      exact absurd ⟨dirs, name, content, rfl, hnode, hname⟩ hselected
  · refine (Node.eq_some_iff_of_bare ?_ hleaf).2 hnode
    simp only [node?, relist, root_modify]
    exact Node.bare_modify _ (not_exists.1 hbelow)

/-- A walk is told the same in every place that is not left out. -/
theorem turn_relist (hplace : ¬ rules.LeavesOut trail entries place) (name : Name) :
    (d.relist trail entries').turn place name = d.turn place name := by
  cases place with
  | removed above => rfl
  | named here =>
    rw [turn_named, turn_named, sight_relist hat hsame (Rules.inSight_of_not_leavesOut hplace),
      sight_relist hat hsame (Rules.inSight_concat hplace name)]

end Disk

end SourceBundle
