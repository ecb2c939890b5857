import SourceBundle.Proofs.Disk.Leading
import SourceBundle.Proofs.Disk.Tree

/-!
A disk on which something new was put: a file, or an empty directory. Of a node a walk sees only
whether it is there, a directory, a link or something else. What is put changes this at most at the
one entry that is written, and every other node stays what it was, but for what it lists. So every
walk that went on goes on in the same way, and one that missed the entry now comes to it.
-/

namespace SourceBundle

/-- What a walk over the disk sees of a node. -/
inductive Sight where
  | nothing
  | directory
  | link (target : Path)
  /-- A file or a device. -/
  | leaf
  deriving DecidableEq, Repr

/-- What a walk sees where a node may stand. -/
def Sight.of : Option Node → Sight
  | none => .nothing
  | some (.directory _) => .directory
  | some (.link target) => .link target
  | some _ => .leaf

theorem Sight.eq_none_of_nothing {found : Option Node} (h : Sight.of found = .nothing) :
    found = none := by
  cases found with
  | none => rfl
  | some node => cases node <;> cases h

theorem Sight.eq_directory_of_directory {found : Option Node} (h : Sight.of found = .directory) :
    ∃ entries, found = some (.directory entries) := by
  cases found with
  | none => cases h
  | some node =>
    cases node with
    | directory entries => exact ⟨entries, rfl⟩
    | _ => cases h

/-- A node without what it lists. -/
def Node.bare : Node → Node
  | .directory _ => .directory []
  | node => node

/-! ### Putting a node into a tree -/

namespace Listing

variable {entries : Listing} {name : Name} {new : Node}

theorem mem_put {e : Name × Node} (h : e ∈ put name new entries) : e = (name, new) ∨ e ∈ entries := by
  induction entries with
  | nil => exact .inl (List.mem_singleton.1 h)
  | cons first rest ih =>
    rw [put] at h
    split at h
    · exact (List.mem_cons.1 h).imp_right (List.mem_cons_of_mem first)
    · rcases List.mem_cons.1 h with rfl | hrest
      · exact .inr (List.mem_cons_self ..)
      · exact (ih hrest).imp_right (List.mem_cons_of_mem first)

/-- A valid listing stays valid when a node is put under a valid name. -/
theorem Valid.put (h : Valid entries) (hname : Name.Valid name) (new : Node) :
    Valid (Listing.put name new entries) := by
  induction entries with
  | nil => exact ⟨by simpa [Listing.put] using hname, by simp [Listing.put]⟩
  | cons first rest ih =>
    obtain ⟨hnames, hnodup⟩ := h
    rw [List.map_cons, List.forall_mem_cons] at hnames
    rw [List.map_cons, List.nodup_cons] at hnodup
    rw [Listing.put]
    split
    · next heq =>
      subst heq
      exact ⟨List.forall_mem_cons.2 ⟨hname, hnames.2⟩, List.nodup_cons.2 hnodup⟩
    · next hne =>
      obtain ⟨hnames', hnodup'⟩ := ih ⟨hnames.2, hnodup.2⟩
      refine ⟨List.forall_mem_cons.2 ⟨hnames.1, hnames'⟩, List.nodup_cons.2 ⟨?_, hnodup'⟩⟩
      intro hmem
      obtain ⟨e, he, heq⟩ := List.mem_map.1 hmem
      rcases mem_put he with rfl | he
      · exact hne heq.symm
      · exact hnodup.1 (heq ▸ List.mem_map_of_mem he)

end Listing

namespace Node

variable {node new : Node} {entries : Listing} {trail : List Name} {name : Name}

theorem sight_bare (found : Option Node) : Sight.of (found.map bare) = Sight.of found := by
  cases found with
  | none => rfl
  | some node => cases node <;> rfl

/-- A node that is no directory is all that is left of it. -/
theorem eq_of_bare {a b : Node} (h : a.bare = b.bare) (hleaf : a.isDirectory = false) : a = b := by
  cases a with
  | directory entries => cases hleaf
  | _ => cases b <;> first | exact h | cases h

/-- Of two places that hold the same but for what is listed, one holds what is no directory when the
other does. -/
theorem eq_some_iff_of_bare {a b : Option Node} {node : Node} (h : a.map bare = b.map bare)
    (hleaf : node.isDirectory = false) : a = some node ↔ b = some node := by
  constructor
  · rintro rfl
    obtain ⟨other, rfl, hother⟩ := Option.map_eq_some_iff.1 h.symm
    rw [eq_of_bare hother.symm hleaf]
  · rintro rfl
    obtain ⟨other, rfl, hother⟩ := Option.map_eq_some_iff.1 h
    rw [eq_of_bare hother.symm hleaf]

/-- Below something that lists nothing stands nothing. -/
theorem bind_at?_eq_none {found : Option Node} (h : ∀ node, found = some node → node.entries = [])
    (first : Name) (rest : List Name) : found.bind (·.at? (first :: rest)) = none := by
  cases found with
  | none => rfl
  | some node => rw [Option.bind_some, at?, h node rfl]; rfl

/-- Everywhere else stands what stood, but for what it lists. -/
theorem bare_modify {node : Node} {trail there : List Name} (change : Listing → Listing)
    (hthere : ∀ names, there ≠ trail ++ names) :
    ((node.modify change trail).at? there).map bare = (node.at? there).map bare := by
  induction trail generalizing node there with
  | nil => exact absurd rfl (hthere there)
  | cons dir trail ih =>
    cases node with
    | directory entries =>
      rw [modify_cons]
      cases there with
      | nil => rfl
      | cons first rest =>
        rw [Node.at?, Node.at?, Node.entries, Node.entries, Listing.find?_map]
        cases hfind : Listing.find? entries first with
        | none => rfl
        | some child =>
          by_cases hfirst : first = dir
          · subst hfirst
            have hrest : ∀ names, rest ≠ trail ++ names := by
              rintro names rfl
              exact hthere names rfl
            simpa using @ih child rest hrest
          · simp [hfirst]
    | _ => rw [modify] <;> simp

/-- Putting a node that lists nothing where nothing is listed changes what stands there, and no other
node but for what it lists. -/
theorem bare_put (hat : node.at? trail = some (.directory entries))
    (hfree : ∀ old, Listing.find? entries name = some old → old.entries = [])
    (hnew : new.entries = []) (there : List Name) :
    ((node.modify (Listing.put name new) trail).at? there).map bare =
      if there = trail ++ [name] then some new.bare else (node.at? there).map bare := by
  by_cases hbelow : ∃ names, there = trail ++ names
  · obtain ⟨names, rfl⟩ := hbelow
    rw [at?_modify_append _ hat, at?_append, hat, Option.bind_some]
    cases names with
    | nil => simp [at?, bare]
    | cons first rest =>
      rw [at?, at?, Node.entries, Node.entries, Listing.find?_put]
      by_cases hfirst : first = name
      · subst hfirst
        cases rest with
        | nil => simp [at?]
        | cons next rest =>
          have hnone : (some new).bind (·.at? (next :: rest)) = none :=
            bind_at?_eq_none (by simpa using hnew) next rest
          rw [if_pos rfl, if_neg (by simp), hnone, bind_at?_eq_none hfree]
      · rw [if_neg hfirst, if_neg (by simp [hfirst])]
  · rw [if_neg fun heq => hbelow ⟨_, heq⟩, bare_modify _ (not_exists.1 hbelow)]

/-- What was put is there. -/
theorem at?_put (hat : node.at? trail = some (.directory entries)) (new : Node) :
    (node.modify (Listing.put name new) trail).at? (trail ++ [name]) = some new := by
  rw [at?_modify_append _ hat]
  simp [at?, Node.entries, Listing.find?_put]

/-- A valid tree stays valid when a valid one is put into it under a valid name. -/
theorem Valid.put (h : node.Valid) (hname : Name.Valid name) (hnew : new.Valid) :
    (node.modify (Listing.put name new) trail).Valid := by
  induction trail generalizing node with
  | nil =>
    cases node with
    | directory entries =>
      obtain ⟨hlisting, hall⟩ := valid_directory_iff.1 h
      refine valid_directory_iff.2 ⟨hlisting.put hname new, ?_⟩
      intro e he
      rcases Listing.mem_put he with rfl | he
      · exact hnew
      · exact hall e he
    | _ => exact h
  | cons dir trail ih =>
    cases node with
    | directory entries =>
      obtain ⟨hlisting, hall⟩ := valid_directory_iff.1 h
      rw [modify_cons]
      refine valid_directory_iff.2 ⟨⟨?_, ?_⟩, ?_⟩
      · simpa using hlisting.names
      · simpa [Function.comp_def] using hlisting.nodup
      · intro e he
        obtain ⟨old, hold, rfl⟩ := List.mem_map.1 he
        dsimp only
        split
        · exact ih (hall old hold)
        · exact hall old hold
    | _ => exact h

end Node

namespace Disk

variable {d d' : Disk} {trail there : List Name} {name : Name} {entries : Listing} {new : Node}

theorem root_put (d : Disk) (trail : List Name) (name : Name) (node : Node) :
    (d.put trail name node).root = d.root.modify (Listing.put name node) trail :=
  d.root_modify (Listing.put name node) trail

theorem bare_put (new : Node) (hat : d.node? (.named trail) = some (.directory entries))
    (hfree : ∀ old, Listing.find? entries name = some old → old.entries = [])
    (hnew : new.entries = []) (there : List Name) :
    ((d.put trail name new).node? (.named there)).map Node.bare =
      if there = trail ++ [name] then some new.bare else (d.node? (.named there)).map Node.bare := by
  rw [node?, root_put]
  exact Node.bare_put hat hfree hnew there

/-- What was put is there. -/
theorem node?_put (hat : d.node? (.named trail) = some (.directory entries)) (new : Node) :
    (d.put trail name new).node? (.named (trail ++ [name])) = some new := by
  rw [node?, root_put]
  exact Node.at?_put hat new

theorem Valid.put (h : d.Valid) (hname : Name.Valid name) (hnew : new.Valid) :
    (d.put trail name new).Valid := by
  rw [Disk.Valid, root_put]
  exact Node.Valid.put h hname hnew

/-! ### Walks on a grown disk -/

/-- A walk goes on as what is seen at the place and under the name says. -/
theorem turn_named (d : Disk) (trail : List Name) (name : Name) :
    d.turn (.named trail) name =
      match Sight.of (d.node? (.named trail)) with
      | .directory =>
        if name = Bytes.dot then .move (.named trail)
        else if name = Bytes.dotDot then .move (.named trail.dropLast)
        else if maxName < name.length then .barred .nameTooLong
        else
          match Sight.of (d.node? (.named (trail ++ [name]))) with
          | .nothing => .missing
          | .link target => .link target
          | _ => .move (.named (trail ++ [name]))
      | _ => .barred .notDirectory := by
  have hchild : d.node? (.named (trail ++ [name])) =
      (d.node? (.named trail)).bind fun node => Listing.find? node.entries name := by
    have h := d.node?_child trail name
    rwa [Place.child] at h
  rw [hchild]
  unfold turn
  cases hnode : d.node? (.named trail) with
  | none => rfl
  | some node =>
    cases node with
    | directory entries =>
      simp only [Sight.of, Option.bind_some, Node.entries, Place.parent, Place.child]
      cases Listing.find? entries name with
      | none => rfl
      | some child => cases child <;> rfl
    | _ => rfl

/-- On the first disk every place is seen as on the second, but where nothing was to be seen. -/
def Keeps (d' d : Disk) : Prop :=
  ∀ trail, Sight.of (d.node? (.named trail)) ≠ .nothing →
    Sight.of (d'.node? (.named trail)) = Sight.of (d.node? (.named trail))

theorem Keeps.refl (d : Disk) : d.Keeps d := fun _ _ => rfl

theorem Keeps.trans {d'' : Disk} (h : d''.Keeps d') (h' : d'.Keeps d) : d''.Keeps d := by
  intro trail hseen
  have hsame := h' trail hseen
  rw [h trail (by rw [hsame]; exact hseen), hsame]

/-- What stood stands still, or what looks the same. -/
theorem Keeps.node? {node : Node} (h : d'.Keeps d) (hnode : d.node? (.named trail) = some node) :
    ∃ node', d'.node? (.named trail) = some node' ∧
      Sight.of (some node') = Sight.of (some node) := by
  have hsight := h trail (by rw [hnode]; cases node <;> simp [Sight.of])
  rw [hnode] at hsight
  cases hnode' : d'.node? (.named trail) with
  | none => rw [hnode'] at hsight; cases node <;> cases hsight
  | some node' => exact ⟨node', rfl, by rw [← hnode']; exact hsight⟩

/-- Where every place is seen as before, every walk that went on goes on. -/
theorem Keeps.leads (h : d'.Keeps d) : d'.Leads d := by
  intro place name hopen
  cases place with
  | removed above => rfl
  | named trail =>
    rw [turn_named] at hopen
    rw [turn_named, turn_named]
    by_cases hhere : Sight.of (d.node? (.named trail)) = .nothing
    · rw [hhere] at hopen
      cases hopen
    · rw [h trail hhere]
      cases hsight : Sight.of (d.node? (.named trail)) with
      | directory =>
        by_cases hthere : Sight.of (d.node? (.named (trail ++ [name]))) = .nothing
        · simp only [hsight, hthere] at hopen ⊢
          split at hopen
          · next hdot => rw [if_pos hdot, if_pos hdot]
          next hdot =>
          split at hopen
          · next hdotDot => rw [if_neg hdot, if_neg hdot, if_pos hdotDot, if_pos hdotDot]
          split at hopen <;> cases hopen
        · rw [h _ hthere]
      | _ => rfl

/-- Putting a node keeps what is seen, where nothing stands or what looks the same and lists
nothing. -/
theorem keeps_put (hat : d.node? (.named trail) = some (.directory entries))
    (hfree : ∀ old, Listing.find? entries name = some old →
      old.entries = [] ∧ Sight.of (some old) = Sight.of (some new))
    (hnew : new.entries = []) : (d.put trail name new).Keeps d := by
  intro there hseen
  have hbare := bare_put new hat (fun old hold => (hfree old hold).1) hnew there
  rw [← Node.sight_bare ((d.put trail name new).node? (.named there)), hbare]
  split
  · next heq =>
    subst heq
    rw [node?_listed hat] at hseen ⊢
    cases hfind : Listing.find? entries name with
    | none => rw [hfind] at hseen; exact absurd rfl hseen
    | some old => exact (Node.sight_bare (some new)).trans (hfree old hfind).2.symm
  · exact Node.sight_bare _

/-- A walk that finds nothing under a name stands in a directory that does not list it. -/
theorem find?_of_turn_missing (h : d.turn (.named trail) name = .missing) :
    ∃ entries, d.node? (.named trail) = some (.directory entries) ∧
      Listing.find? entries name = none ∧ name ≠ Bytes.dot ∧ name ≠ Bytes.dotDot ∧
      name.length ≤ maxName := by
  unfold turn at h
  split at h
  · next entries hnode =>
    split at h
    · cases h
    next hdot =>
    split at h
    · cases h
    next hdotDot =>
    simp only at h
    split at h
    · cases h
    next hlength =>
    split at h
    · next hfind => exact ⟨entries, hnode, hfind, hdot, hdotDot, Nat.not_lt.1 hlength⟩
    · cases h
    · cases h
  · cases h

/-- A walk that found nothing under a name comes to what was put there. -/
theorem turn_put (h : d.turn (.named trail) name = .missing) (hnew : new.entries = [])
    (hlink : ∀ target, new ≠ .link target) :
    (d.put trail name new).turn (.named trail) name = .move (.named (trail ++ [name])) := by
  obtain ⟨entries, hat, hfind, hdot, hdotDot, hlength⟩ := find?_of_turn_missing h
  have hkeeps : (d.put trail name new).Keeps d := keeps_put hat (by simp [hfind]) hnew
  have hhere : Sight.of ((d.put trail name new).node? (.named trail)) = .directory := by
    rw [hkeeps trail (by simp [hat, Sight.of]), hat]
    rfl
  rw [turn_named, hhere, node?_put hat]
  simp only [if_neg hdot, if_neg hdotDot, if_neg (Nat.not_lt.2 hlength)]
  cases new with
  | link target => exact absurd rfl (hlink target)
  | _ => rfl

end Disk

end SourceBundle
