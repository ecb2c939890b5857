import Mathlib.Data.List.Infix
import SourceBundle.Proofs.Disk.Growth

/-!
A disk after a node was put at a place and the directories that were missing above it were made. All
that stands elsewhere is what it was, to the last entry, and a directory above the place lists what it
listed, in its order, with at most the one name added that leads to the place.
-/

namespace SourceBundle

namespace Listing

/-- The names of a listing after a put: one that is new comes last. -/
theorem names_put (name : Name) (node : Node) (entries : Listing) :
    (put name node entries).map Prod.fst =
      if name ∈ entries.map Prod.fst then entries.map Prod.fst
      else entries.map Prod.fst ++ [name] := by
  induction entries with
  | nil => simp [put]
  | cons e rest ih =>
    rw [put]
    by_cases hname : e.1 = name
    · simp [hname]
    · rw [if_neg hname, List.map_cons, ih]
      simp only [List.map_cons, List.mem_cons, Ne.symm hname, false_or]
      split <;> rfl

theorem mem_names_of_find? {entries : Listing} {name : Name} {node : Node}
    (h : find? entries name = some node) : name ∈ entries.map Prod.fst :=
  List.mem_map_of_mem (mem_of_find? h)

end Listing

namespace Node

variable {node : Node} {trail other : List Name} {entries : Listing}

/-- On the way to a directory whose listing was changed stands what stood, changed further down. -/
theorem at?_modify_front (change : Listing → Listing) (node : Node) (front back : List Name) :
    (node.modify change (front ++ back)).at? front = (node.at? front).map (·.modify change back) := by
  induction front generalizing node with
  | nil => rfl
  | cons name front ih =>
    cases node with
    | directory entries =>
      rw [List.cons_append, modify_cons, at?, at?, Node.entries, Node.entries, Listing.find?_map]
      cases Listing.find? entries name with
      | none => rfl
      | some child => simpa using ih child
    | _ => rfl

/-- Beside the way to a directory whose listing was changed stands what stood. -/
theorem at?_modify_beside (change : Listing → Listing) (hother : ¬ other <+: trail)
    (htrail : ¬ trail <+: other) : (node.modify change trail).at? other = node.at? other := by
  induction trail generalizing node other with
  | nil => exact absurd List.nil_prefix htrail
  | cons dir trail ih =>
    cases other with
    | nil => exact absurd List.nil_prefix hother
    | cons first rest =>
      cases node with
      | directory entries =>
        rw [modify_cons, at?, at?, Node.entries, Node.entries, Listing.find?_map]
        cases Listing.find? entries first with
        | none => rfl
        | some child =>
          by_cases hfirst : first = dir
          · subst hfirst
            rw [List.cons_prefix_cons] at hother htrail
            simpa using @ih child rest (fun h => hother ⟨rfl, h⟩) (fun h => htrail ⟨rfl, h⟩)
          · simp [hfirst]
      | _ => rfl

end Node

namespace Disk

variable {d d' : Disk} {trail there other front back : List Name} {name last : Name}
  {entries : Listing} {node new : Node}

/-- What stands beside the entry that was put, and neither above nor below it, is what it was. -/
theorem node?_put_beside (hat : d.node? (.named trail) = some (.directory entries))
    (hother : ¬ other <+: trail ++ [name]) (hname : ¬ trail ++ [name] <+: other) (new : Node) :
    (d.put trail name new).node? (.named other) = d.node? (.named other) := by
  rw [node?, root_put, node?]
  by_cases htrail : trail <+: other
  · obtain ⟨rest, rfl⟩ := htrail
    cases rest with
    | nil => exact absurd (by simp) hother
    | cons first rest =>
      have hfirst : first ≠ name := by
        rintro rfl
        exact hname (by simp)
      rw [Node.at?_modify_append _ hat, Node.at?_append, show d.root.at? trail = _ from hat,
        Option.bind_some, Node.at?, Node.at?, Node.entries, Node.entries, Listing.find?_put,
        if_neg hfirst]
  · exact Node.at?_modify_beside _ (fun h => hother (h.trans (List.prefix_append _ _))) htrail

/-- A directory above the one that takes the entry lists the names that it listed. -/
theorem names_put_above (hat : d.node? (.named (front ++ name :: back)) = some (.directory entries))
    (new : Node) :
    ∃ listed listed', d.node? (.named front) = some (.directory listed) ∧
      (d.put (front ++ name :: back) last new).node? (.named front) = some (.directory listed') ∧
      listed'.map Prod.fst = listed.map Prod.fst := by
  rw [node?, Node.at?_append] at hat
  obtain ⟨above, habove, hback⟩ := Option.bind_eq_some_iff.1 hat
  obtain ⟨listed, -, rfl, -⟩ := Node.at?_cons_eq_some hback
  have hput : (d.put (front ++ name :: back) last new).node? (.named front) =
      some ((Node.directory listed).modify (Listing.put last new) (name :: back)) := by
    rw [node?, root_put, Node.at?_modify_front, habove, Option.map_some]
  rw [Node.modify_cons] at hput
  exact ⟨listed, _, habove, hput, by simp [Function.comp_def]⟩

/-- What a place lists. -/
def listed (d : Disk) (trail : List Name) : Listing :=
  (d.node? (.named trail)).elim [] Node.entries

theorem listed_of_node? (h : d.node? (.named trail) = some (.directory entries)) :
    d.listed trail = entries := by
  rw [listed, h]
  rfl

theorem listed_of_none (h : d.node? (.named trail) = none) : d.listed trail = [] := by
  rw [listed, h]
  rfl

/-- Below a place stands what the place lists. -/
theorem node?_append_cons (d : Disk) (trail : List Name) (name : Name) (rest : List Name) :
    d.node? (.named (trail ++ name :: rest)) =
      (Node.directory (d.listed trail)).at? (name :: rest) := by
  rw [node?, Node.at?_append, listed, node?]
  cases d.root.at? trail <;> rfl

/-- The second disk is the first with a node at `there` and the directories that were missing above. -/
structure Placed (d d' : Disk) (there : List Name) (node : Node) : Prop where
  placed : d'.node? (.named there) = some node
  /-- Above the place stand directories, with the names that they listed and the next one. -/
  above : ∀ front name, front ++ [name] <+: there → ∃ entries,
    d'.node? (.named front) = some (.directory entries) ∧
      entries.map Prod.fst =
        let names := (d.listed front).map Prod.fst
        if name ∈ names then names else names ++ [name]
  /-- What is neither above nor below the place is what it was. -/
  beside : ∀ other, ¬ other <+: there → ¬ there <+: other →
    d'.node? (.named other) = d.node? (.named other)

/-- What stands at its place already is placed there. -/
theorem Placed.refl (h : d.node? (.named there) = some node) : d.Placed d there node := by
  refine ⟨h, ?_, fun _ _ _ => rfl⟩
  rintro front name ⟨back, rfl⟩
  rw [List.append_assoc, node?, Node.at?_append] at h
  obtain ⟨above, habove, hback⟩ := Option.bind_eq_some_iff.1 h
  obtain ⟨entries, child, rfl, hfind, -⟩ := Node.at?_cons_eq_some hback
  refine ⟨entries, habove, ?_⟩
  rw [listed_of_node? habove]
  exact (if_pos (Listing.mem_names_of_find? hfind)).symm

/-- A node that is put into a directory, which lists what it listed at first, is placed. -/
theorem Placed.put (h : d.Placed d' there (.directory (d.listed there))) (new : Node) :
    d.Placed (d'.put there name new) (there ++ [name]) new := by
  have hat := h.placed
  refine ⟨node?_put hat new, ?_, ?_⟩
  · intro front last hfront
    rcases List.prefix_concat_iff.1 hfront with heq | habove
    · obtain ⟨rfl, hlast⟩ := List.append_inj' heq rfl
      obtain ⟨rfl⟩ := hlast
      have hput := Node.at?_modify_append (Listing.put name new) hat []
      rw [List.append_nil, ← root_put] at hput
      exact ⟨_, hput, Listing.names_put ..⟩
    · -- further up the listings were changed by `h` alone: the put lists no name there
      obtain ⟨entries, hentries, hnames⟩ := h.above front last habove
      obtain ⟨back, rfl⟩ := habove
      rw [List.append_assoc] at hat ⊢
      obtain ⟨listed, listed', hlisted, hlisted', hsame⟩ := names_put_above hat new
      rw [hentries] at hlisted
      obtain ⟨rfl⟩ := hlisted
      exact ⟨listed', hlisted', hsame.trans hnames⟩
  · intro other hother hthere
    rw [node?_put_beside hat hother hthere]
    by_cases hbelow : there <+: other
    · -- `h` says nothing of what is below, but the directory lists what it listed at first
      obtain ⟨rest, rfl⟩ := hbelow
      cases rest with
      | nil => exact absurd (by simp) hother
      | cons first rest =>
        rw [node?_append_cons, node?_append_cons, listed_of_node? hat]
    · exact h.beside other (fun h => hother (h.trans (List.prefix_append _ _))) hbelow

theorem placed_put (hat : d.node? (.named there) = some (.directory entries)) (new : Node) :
    d.Placed (d.put there name new) (there ++ [name]) new := by
  refine Placed.put ?_ new
  rw [listed_of_node? hat]
  exact .refl hat

/-- In a directory that was itself missing, a node is placed too. -/
theorem Placed.put_made (h : d.Placed d' there (.directory []))
    (hnone : d.node? (.named there) = none) (new : Node) :
    d.Placed (d'.put there name new) (there ++ [name]) new := by
  refine Placed.put ?_ new
  rw [listed_of_none hnone]
  exact h

end Disk

end SourceBundle
