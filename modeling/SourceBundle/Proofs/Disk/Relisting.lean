import SourceBundle.Proofs.Disk.Lookup
import SourceBundle.Proofs.Disk.Passing

/-!
Disks that differ only in the order in which their directories list what they hold. A path leads to
the same place on both, and what stands there differs at most in the same way.
-/

namespace SourceBundle

/-- Two trees that differ only in the order of their listings. -/
inductive Node.Relisted : Node → Node → Prop
  | leaf (node : Node) (hleaf : node.isDirectory = false) : Relisted node node
  | directory (entries entries' : Listing) (below : Name × Node → Node)
      (hbelow : ∀ e ∈ entries, Relisted e.2 (below e))
      (hperm : entries'.Perm (entries.map fun e => (e.1, below e))) :
      Relisted (.directory entries) (.directory entries')

/-- Two disks that differ only in the order of their listings. -/
def Disk.Relisted (d d' : Disk) : Prop := d.root.Relisted d'.root

namespace Listing

variable {entries entries' : Listing} {below : Name × Node → Node} {name : Name}

/-- A shuffled listing lists the same names. -/
theorem Valid.relisted (h : Valid entries)
    (hperm : entries'.Perm (entries.map fun e => (e.1, below e))) : Valid entries' := by
  have hnames : (entries'.map Prod.fst).Perm (entries.map Prod.fst) := by
    simpa [List.map_map, Function.comp_def] using hperm.map Prod.fst
  exact ⟨fun name hname => h.names name (hnames.mem_iff.1 hname), hnames.nodup_iff.2 h.nodup⟩

/-- In a shuffled listing every name leads to the counterpart of what it led to. -/
theorem Valid.find?_relisted (h : Valid entries)
    (hperm : entries'.Perm (entries.map fun e => (e.1, below e))) :
    find? entries' name = (find? entries name).map fun node => below (name, node) := by
  have h' := h.relisted hperm
  have hmapped : Valid (entries.map fun e => (e.1, below e)) := h.relisted (.refl _)
  rw [← find?_map]
  ext node
  rw [find?_eq_some_iff h'.nodup, find?_eq_some_iff hmapped.nodup]
  exact hperm.mem_iff

end Listing

namespace Node

variable {a b : Node}

theorem Relisted.isDirectory_eq (h : a.Relisted b) : a.isDirectory = b.isDirectory := by
  cases h <;> rfl

/-- What is no directory is the same in both trees. -/
theorem Relisted.eq_of_not_directory (h : a.Relisted b) (hleaf : a.isDirectory = false) : b = a := by
  cases h with
  | leaf => rfl
  | directory => cases hleaf

/-- A tree differs from itself in nothing. -/
theorem Relisted.refl (node : Node) : node.Relisted node := by
  induction node using Node.induct with
  | leaf node hleaf => exact .leaf node hleaf
  | directory entries ih => exact .directory entries entries Prod.snd ih (by simp)

/-- Shuffling the listing of one directory is such a difference. -/
theorem relisted_modify {change : Listing → Listing}
    (hchange : ∀ entries, (change entries).Perm entries)
    (trail : List Name) (node : Node) : node.Relisted (node.modify change trail) := by
  induction trail generalizing node with
  | nil =>
    cases node with
    | directory entries =>
      exact .directory _ _ Prod.snd (fun e _ => .refl e.2) (by simpa using hchange entries)
    | _ => exact .refl _
  | cons name rest ih =>
    cases node with
    | directory entries =>
      rw [modify_cons]
      refine .directory _ _ (fun e => if e.1 = name then e.2.modify change rest else e.2) ?_ (.refl _)
      intro e _
      split
      · exact ih e.2
      · exact .refl e.2
    | _ => exact .refl _

/-- Names lead to counterparts. -/
theorem Relisted.at? (h : a.Relisted b) (hvalid : a.Valid) (names : List Name) :
    Option.Rel Relisted (a.at? names) (b.at? names) := by
  induction names generalizing a b with
  | nil => exact .some h
  | cons name rest ih =>
    cases h with
    | leaf _ hleaf =>
      rw [Node.at?, entries_of_not_directory hleaf]
      exact .none
    | directory entries entries' below hbelow hperm =>
      simp only [Node.at?, Node.entries, hvalid.listing.find?_relisted hperm]
      cases hfind : Listing.find? entries name with
      | none => exact .none
      | some child =>
        exact ih (hbelow _ (Listing.mem_of_find? hfind)) (hvalid.find? hfind)

end Node

namespace Disk

variable {d d' : Disk} {place : Place} {name : Name}

/-- Shuffling the listing of one directory changes nothing else on a disk. -/
theorem relisted_modify {change : Listing → Listing}
    (hchange : ∀ entries, (change entries).Perm entries)
    (trail : List Name) : d.Relisted (d.modify change trail) := by
  unfold Relisted
  rw [root_modify]
  exact Node.relisted_modify hchange trail d.root

/-- Counterparts stand at the same places. -/
theorem Relisted.node? (h : d.Relisted d') (hvalid : d.Valid) (place : Place) :
    Option.Rel Node.Relisted (d.node? place) (d'.node? place) := by
  cases place with
  | named trail => exact Node.Relisted.at? h hvalid trail
  | removed above => exact .some (.directory [] [] Prod.snd (by simp) (.refl _))

/-- A name leads a walk on in the same way. -/
theorem Relisted.turn (h : d.Relisted d') (hvalid : d.Valid) (place : Place) (name : Name) :
    d'.turn place name = d.turn place name := by
  have hnode := h.node? hvalid place
  have hentries : ∀ entries, d.node? place = some (.directory entries) → Listing.Valid entries :=
    fun entries hfound => (hvalid.node? hfound).listing
  unfold Disk.turn
  generalize d.node? place = found at hnode hentries
  generalize d'.node? place = found' at hnode
  cases hnode with
  | none => rfl
  | some hrelisted =>
    cases hrelisted with
    | leaf node hleaf => rfl
    | directory entries entries' below hbelow hperm =>
      simp only [(hentries entries rfl).find?_relisted hperm]
      cases hfind : Listing.find? entries name with
      | none => rfl
      | some child =>
        have hchild := hbelow _ (Listing.mem_of_find? hfind)
        rw [Option.map_some]
        cases hdir : child.isDirectory with
        | false => rw [hchild.eq_of_not_directory hdir]
        | true =>
          have hdir' : (below (name, child)).isDirectory = true := hchild.isDirectory_eq ▸ hdir
          rw [Node.eq_directory hdir', Node.eq_directory hdir]

/-- A path is followed to the same place. -/
theorem Relisted.chase (h : d.Relisted d') (hvalid : d.Valid) (followLast : Bool) (links : Nat)
    (place : Place) (names : List Name) (slash : Bool) :
    d'.chase followLast links place names slash = d.chase followLast links place names slash :=
  chase_eq_of_passes (fun passed _ => h.turn hvalid passed) followLast slash

end Disk

namespace World

variable {w : World} {d : Disk} {p : Path}

/-- What a lookup finds on two disks: the same refusal, or counterparts at the same place. -/
inductive Agrees : Except IoError (Place × Node) → Except IoError (Place × Node) → Prop
  | error (cause : IoError) : Agrees (.error cause) (.error cause)
  | ok (place : Place) {a b : Node} (h : a.Relisted b) : Agrees (.ok (place, a)) (.ok (place, b))

theorem agrees_settle (h : w.disk.Relisted d) (hvalid : w.disk.Valid) (goal : Disk.Goal) :
    Agrees (w.settle goal) ({ w with disk := d }.settle goal) := by
  cases goal with
  | vacant place name slash => exact .error _
  | blocked cause => exact .error _
  | found place slash =>
    have hnode := h.node? hvalid place
    unfold settle
    simp only
    generalize w.disk.node? place = found at hnode
    generalize d.node? place = found' at hnode
    cases hnode with
    | none => exact .error _
    | some hrelisted =>
      simp only [hrelisted.isDirectory_eq]
      split
      · exact .error _
      · exact .ok place hrelisted

/-- A path leads to counterparts. -/
theorem agrees_follow (h : w.disk.Relisted d) (hvalid : w.disk.Valid) (p : Path) :
    Agrees (w.follow p) ({ w with disk := d }.follow p) := by
  unfold follow locate
  cases p.refusal? with
  | some cause => exact .error cause
  | none =>
    simp only [h.chase hvalid]
    exact agrees_settle h hvalid _

/-- A path names counterparts. -/
theorem agrees_inspect (h : w.disk.Relisted d) (hvalid : w.disk.Valid) (p : Path) :
    Agrees (w.inspect p) ({ w with disk := d }.inspect p) := by
  unfold inspect locate
  cases p.refusal? with
  | some cause => exact .error cause
  | none =>
    simp only [h.chase hvalid]
    exact agrees_settle h hvalid _

theorem isDirectory_relisted (h : w.disk.Relisted d) (hvalid : w.disk.Valid) (p : Path) :
    { w with disk := d }.isDirectory p = w.isDirectory p := by
  have hfollow := agrees_follow h hvalid p
  unfold isDirectory
  generalize w.follow p = found at hfollow
  generalize { w with disk := d }.follow p = found' at hfollow
  cases hfollow with
  | error cause => rfl
  | ok place hrelisted => exact hrelisted.isDirectory_eq.symm

/-- A file holds the same bytes. -/
theorem read_relisted (h : w.disk.Relisted d) (hvalid : w.disk.Valid) (p : Path) :
    { w with disk := d }.read p = w.read p := by
  have hfollow := agrees_follow h hvalid p
  unfold read
  generalize w.follow p = found at hfollow
  generalize { w with disk := d }.follow p = found' at hfollow
  cases hfollow with
  | error cause => rfl
  | ok place hrelisted => cases hrelisted <;> rfl

end World

end SourceBundle
