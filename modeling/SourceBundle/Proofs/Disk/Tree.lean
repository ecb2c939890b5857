import SourceBundle.Disk.Route

/-!
Disks as they can be. Every name in a listing can stand in a path by itself, and no listing has a
name twice. Both are said of all directories below a node at once, so a part of a sound tree is
sound without a proof of its own. Induction over a tree has two cases: a node that is no directory,
and a directory all of whose entries are settled.
-/

namespace SourceBundle

/-- A name that leads from a directory to an entry of it: one segment of a path, and no dots. -/
structure Name.Normal (name : Name) : Prop where
  ne_nil : name ≠ []
  ne_dot : name ≠ Bytes.dot
  ne_dotDot : name ≠ Bytes.dotDot
  slash_notMem : Bytes.slash ∉ name

/-- A name that a directory can hold. -/
structure Name.Valid (name : Name) : Prop where
  ne_nil : name ≠ []
  ne_dot : name ≠ Bytes.dot
  ne_dotDot : name ≠ Bytes.dotDot
  slash_notMem : Bytes.slash ∉ name
  nul_notMem : (0 : UInt8) ∉ name
  length_le : name.length ≤ maxName

theorem Name.Valid.normal {name : Name} (h : Name.Valid name) : Name.Normal name :=
  ⟨h.ne_nil, h.ne_dot, h.ne_dotDot, h.slash_notMem⟩

instance (name : Name) : Decidable (Name.Valid name) :=
  decidable_of_iff
    (name ≠ [] ∧ name ≠ Bytes.dot ∧ name ≠ Bytes.dotDot ∧ Bytes.slash ∉ name ∧ (0 : UInt8) ∉ name ∧
      name.length ≤ maxName)
    ⟨fun ⟨a, b, c, d, e, f⟩ => ⟨a, b, c, d, e, f⟩, fun ⟨a, b, c, d, e, f⟩ => ⟨a, b, c, d, e, f⟩⟩

namespace Listing

/-- A listing that a directory can have: valid names, each of them once. -/
structure Valid (entries : Listing) : Prop where
  names : ∀ name ∈ entries.map Prod.fst, Name.Valid name
  nodup : (entries.map Prod.fst).Nodup

instance (entries : Listing) : Decidable (Valid entries) :=
  decidable_of_iff
    ((∀ name ∈ entries.map Prod.fst, Name.Valid name) ∧ (entries.map Prod.fst).Nodup)
    ⟨fun ⟨a, b⟩ => ⟨a, b⟩, fun ⟨a, b⟩ => ⟨a, b⟩⟩

variable {entries : Listing} {name : Name} {node : Node}

theorem find?_cons (e : Name × Node) (rest : Listing) :
    find? (e :: rest) name = if name = e.1 then some e.2 else find? rest name := by
  unfold find?
  rw [List.lookup_cons]
  by_cases hname : name = e.1
  · rw [beq_iff_eq.2 hname, if_pos hname]
  · rw [beq_eq_false_iff_ne.2 hname, if_neg hname]

/-- What a name leads to is listed. -/
theorem mem_of_find? (h : find? entries name = some node) : (name, node) ∈ entries := by
  induction entries with
  | nil => cases h
  | cons e rest ih =>
    rw [find?_cons] at h
    split at h
    · next hname =>
      obtain ⟨rfl⟩ := h
      exact List.mem_cons.2 (.inl (by rw [hname]))
    · exact List.mem_cons.2 (.inr (ih h))

/-- A name leads to what was made of what it led to. -/
theorem find?_map (entries : Listing) (below : Name × Node → Node) (name : Name) :
    find? (entries.map fun e => (e.1, below e)) name =
      (find? entries name).map fun node => below (name, node) := by
  induction entries with
  | nil => rfl
  | cons e rest ih =>
    rw [List.map_cons, find?_cons, find?_cons, ih]
    split
    · next hname => rw [hname]; rfl
    · rfl

/-- With names that stand once each, all that is listed is found under its name. -/
theorem find?_of_mem (hnodup : (entries.map Prod.fst).Nodup) (h : (name, node) ∈ entries) :
    find? entries name = some node := by
  induction entries with
  | nil => cases h
  | cons e rest ih =>
    rw [List.map_cons, List.nodup_cons] at hnodup
    rw [find?_cons]
    rcases List.mem_cons.1 h with rfl | hmem
    · rw [if_pos rfl]
    · have hne : name ≠ e.1 := fun heq => hnodup.1 (heq ▸ List.mem_map_of_mem hmem)
      rw [if_neg hne]
      exact ih hnodup.2 hmem

theorem find?_eq_some_iff (hnodup : (entries.map Prod.fst).Nodup) :
    find? entries name = some node ↔ (name, node) ∈ entries :=
  ⟨mem_of_find?, find?_of_mem hnodup⟩

theorem Valid.name_of_find? (hv : Valid entries) (h : find? entries name = some node) :
    Name.Valid name :=
  hv.names name (List.mem_map_of_mem (mem_of_find? h))

end Listing

namespace Node

/-- Induction over a tree. -/
@[elab_as_elim]
theorem induct {motive : Node → Prop} (leaf : ∀ node, node.isDirectory = false → motive node)
    (directory : ∀ entries : Listing, (∀ e ∈ entries, motive e.2) → motive (.directory entries)) :
    ∀ node, motive node
  | .file content => leaf (.file content) rfl
  | .link target => leaf (.link target) rfl
  | .device kind => leaf (.device kind) rfl
  | .directory entries => directory entries fun e _ => induct leaf directory e.2
termination_by node => sizeOf node
decreasing_by
  have hlt := List.sizeOf_lt_of_mem ‹e ∈ entries›
  obtain ⟨name, node⟩ := e
  simp only [Node.directory.sizeOf_spec, Prod.mk.sizeOf_spec] at hlt ⊢
  omega

theorem eq_directory {node : Node} (h : node.isDirectory = true) :
    node = .directory node.entries := by
  cases node <;> first | rfl | cases h

theorem entries_of_not_directory {node : Node} (h : node.isDirectory = false) :
    node.entries = [] := by
  cases node <;> first | rfl | cases h

/-- A name leads on only from a directory that lists it. -/
theorem at?_cons_eq_some {node found : Node} {name : Name} {rest : List Name}
    (h : node.at? (name :: rest) = some found) :
    ∃ entries child, node = .directory entries ∧ Listing.find? entries name = some child ∧
      child.at? rest = some found := by
  obtain ⟨child, hfind, hrest⟩ := Option.bind_eq_some_iff.1 h
  cases hdir : node.isDirectory with
  | true => exact ⟨node.entries, child, eq_directory hdir, hfind, hrest⟩
  | false =>
    rw [entries_of_not_directory hdir] at hfind
    cases hfind

theorem at?_cons {entries : Listing} {name : Name} {child : Node}
    (h : Listing.find? entries name = some child) (rest : List Name) :
    (Node.directory entries).at? (name :: rest) = child.at? rest := by
  simp [at?, Node.entries, h]

/-- Under one name stands what is listed under it. -/
theorem at?_single (node : Node) (name : Name) :
    node.at? [name] = Listing.find? node.entries name := by
  rw [at?]
  cases Listing.find? node.entries name <;> rfl

/-- What stands at the end of some names and one more is listed in the directory before it. -/
theorem at?_concat_eq_some {node found : Node} {dirs : List Name} {name : Name}
    (h : node.at? (dirs ++ [name]) = some found) :
    ∃ entries, node.at? dirs = some (.directory entries) ∧
      Listing.find? entries name = some found := by
  rw [at?_append] at h
  obtain ⟨last, hlast, hname⟩ := Option.bind_eq_some_iff.1 h
  obtain ⟨entries, child, rfl, hfind, hchild⟩ := at?_cons_eq_some hname
  obtain ⟨rfl⟩ := hchild
  exact ⟨entries, hlast, hfind⟩

/-- A change further down leaves every name of a listing and changes the node under one. -/
theorem modify_cons (change : Listing → Listing) (name : Name) (rest : List Name)
    (entries : Listing) :
    (Node.directory entries).modify change (name :: rest) =
      .directory (entries.map fun e =>
        (e.1, if e.1 = name then e.2.modify change rest else e.2)) := by
  rw [modify]
  refine congrArg Node.directory (List.map_congr_left ?_)
  intro e _
  split <;> rfl

/-- Below a directory whose listing was changed stands what the new listing holds. -/
theorem at?_modify_append {node : Node} {trail : List Name} {entries : Listing}
    (change : Listing → Listing) (hat : node.at? trail = some (.directory entries))
    (names : List Name) :
    (node.modify change trail).at? (trail ++ names) = (Node.directory (change entries)).at? names := by
  induction trail generalizing node with
  | nil =>
    obtain ⟨rfl⟩ := hat
    rfl
  | cons dir trail ih =>
    obtain ⟨listed, child, rfl, hfind, hchild⟩ := at?_cons_eq_some hat
    rw [modify_cons, List.cons_append, Node.at?, Node.entries, Listing.find?_map, hfind]
    simpa using ih hchild

/-- A tree in which every listing is valid. -/
def Valid (node : Node) : Prop :=
  ∀ trail entries, node.at? trail = some (.directory entries) → Listing.Valid entries

theorem Valid.listing {entries : Listing} (h : (Node.directory entries).Valid) :
    Listing.Valid entries :=
  h [] entries rfl

theorem Valid.at? {node found : Node} {trail : List Name} (h : node.Valid)
    (hat : node.at? trail = some found) : found.Valid := by
  intro rest entries hrest
  refine h (trail ++ rest) entries ?_
  rw [at?_append, hat]
  exact hrest

theorem Valid.find? {entries : Listing} {name : Name} {child : Node}
    (h : (Node.directory entries).Valid) (hfind : Listing.find? entries name = some child) :
    child.Valid :=
  h.at? ((at?_single _ name).trans hfind)

/-- The names on a way through a valid tree are valid. -/
theorem Valid.names {node found : Node} {trail : List Name} (h : node.Valid)
    (hat : node.at? trail = some found) : ∀ name ∈ trail, Name.Valid name := by
  induction trail generalizing node with
  | nil => simp
  | cons name rest ih =>
    obtain ⟨entries, child, rfl, hfind, hrest⟩ := at?_cons_eq_some hat
    rw [List.forall_mem_cons]
    exact ⟨h.listing.name_of_find? hfind, ih (h.find? hfind) hrest⟩

/-- A node that is no directory is valid. -/
theorem valid_of_not_directory {node : Node} (h : node.isDirectory = false) : node.Valid := by
  intro trail entries hat
  cases trail with
  | nil =>
    obtain ⟨rfl⟩ := hat
    cases h
  | cons name rest =>
    obtain ⟨_, _, rfl, _, _⟩ := at?_cons_eq_some hat
    cases h

/-- A directory is valid when its own listing and all that it lists are. -/
theorem valid_directory_iff {entries : Listing} :
    (Node.directory entries).Valid ↔ Listing.Valid entries ∧ ∀ e ∈ entries, e.2.Valid := by
  constructor
  · intro h
    exact ⟨h.listing, fun e he => h.find? (Listing.find?_of_mem h.listing.nodup he)⟩
  · rintro ⟨hlisting, hall⟩ trail sub hat
    cases trail with
    | nil =>
      obtain ⟨rfl⟩ := hat
      exact hlisting
    | cons name rest =>
      obtain ⟨_, child, hdir, hfind, hrest⟩ := at?_cons_eq_some hat
      cases hdir
      exact hall _ (Listing.mem_of_find? hfind) rest sub hrest

mutual

/-- Checks a tree, listing by listing. -/
def check : Node → Bool
  | .directory entries => decide (Listing.Valid entries) && checkAll entries
  | _ => true

/-- Checks the trees of all entries. -/
def checkAll : List (Name × Node) → Bool
  | [] => true
  | (_, node) :: rest => check node && checkAll rest

end

theorem checkAll_eq_true_iff (entries : Listing) :
    checkAll entries = true ↔ ∀ e ∈ entries, e.2.check = true := by
  induction entries with
  | nil => simp [checkAll]
  | cons e rest ih => rw [checkAll, Bool.and_eq_true, ih, List.forall_mem_cons]

theorem check_eq_true_iff (node : Node) : node.check = true ↔ node.Valid := by
  induction node using Node.induct with
  | leaf node hleaf =>
    have hcheck : node.check = true := by cases node <;> first | rfl | cases hleaf
    exact ⟨fun _ => valid_of_not_directory hleaf, fun _ => hcheck⟩
  | directory entries ih =>
    rw [check, Bool.and_eq_true, decide_eq_true_eq, checkAll_eq_true_iff, valid_directory_iff]
    refine and_congr_right ?_
    intro _
    constructor
    · intro h e he
      exact (ih e he).1 (h e he)
    · intro h e he
      exact (ih e he).2 (h e he)

instance (node : Node) : Decidable node.Valid := decidable_of_iff _ node.check_eq_true_iff

mutual

/-- How many bytes a chain of names below a node takes at most, each name with a slash. -/
def reach : Node → Nat
  | .directory entries => reachAll entries
  | _ => 0

/-- How many bytes a chain of names that starts in a listing takes at most. -/
def reachAll : List (Name × Node) → Nat
  | [] => 0
  | (name, node) :: rest => max (name.length + 1 + reach node) (reachAll rest)

end

theorem reach_le_reachAll {entries : Listing} {e : Name × Node} (h : e ∈ entries) :
    e.1.length + 1 + e.2.reach ≤ reachAll entries := by
  induction entries with
  | nil => cases h
  | cons first rest ih =>
    rw [reachAll]
    rcases List.mem_cons.1 h with rfl | hrest
    · omega
    · have := ih hrest
      omega

end Node

/-- A disk whose tree is valid. -/
def Disk.Valid (d : Disk) : Prop := d.root.Valid

instance (d : Disk) : Decidable d.Valid := inferInstanceAs (Decidable d.root.Valid)

namespace Disk

/-- The files of the directory `a` of the small project: only `x.h`. -/
def headers : Listing := [([0x78, 0x2E, 0x68], .file [0x32])]

theorem at?_headers_ne_link (names : List Name) (target : Path) :
    (Node.directory headers).at? names ≠ some (.link target) := by
  intro hat
  cases names with
  | nil => simp [Node.at?] at hat
  | cons name rest =>
    obtain ⟨_, child, hdirectory, hfind, hrest⟩ := Node.at?_cons_eq_some hat
    cases hdirectory
    have hmem := Listing.mem_of_find? hfind
    obtain ⟨-, rfl⟩ : name = [0x78, 0x2E, 0x68] ∧ child = .file [0x32] := by
      simpa [headers] using hmem
    cases rest with
    | nil => simp [Node.at?] at hrest
    | cons below more => simp [Node.at?, Node.entries, Listing.find?] at hrest

/-- A small project: a file `b.c`, a link `up` back to the project, a link `g.c` that leads nowhere,
a directory `a` with headers, and a directory `.git`. -/
def project : Listing :=
  [([0x62, 0x2E, 0x63], .file [0x31, 0x0A]),
   ([0x75, 0x70], .link ⟨[0x2F, 0x70]⟩),
   ([0x67, 0x2E, 0x63], .link ⟨[0x6E, 0x6F, 0x6E, 0x65]⟩),
   ([0x61], .directory headers),
   ([0x2E, 0x67, 0x69, 0x74], .directory [([0x63, 0x2E, 0x63], .file [0x33])])]

/-- A small disk that holds nothing but the project `/p`. -/
def sample : Disk where
  entries := [([0x70], .directory project)]

theorem valid_sample : sample.Valid := by decide

end Disk

theorem Disk.root_modify (d : Disk) (change : Listing → Listing) (trail : List Name) :
    (d.modify change trail).root = d.root.modify change trail := by
  cases trail <;> rfl

/-- What stands at a place of a valid disk is a valid tree. -/
theorem Disk.Valid.node? {d : Disk} (h : d.Valid) {place : Place} {node : Node}
    (hat : d.node? place = some node) : node.Valid := by
  cases place with
  | named trail => exact Node.Valid.at? h hat
  | removed above =>
    obtain ⟨rfl⟩ := hat
    exact Node.valid_directory_iff.2 ⟨by decide, by simp⟩

end SourceBundle
