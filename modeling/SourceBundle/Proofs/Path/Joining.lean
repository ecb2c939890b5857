import Mathlib.Data.List.Basic
import Mathlib.Tactic.Conv
import SourceBundle.Path.Relative
import SourceBundle.Proofs.Disk.Tree

/-!
Paths grown by valid names. Joining a valid name to any path adds that one name to what is walked
and that one component to what is compared, however the path is spelled. So a path grown by a chain
of names is seen from where it started as the chain itself, and no two chains grow the same path.
-/

namespace SourceBundle.Path

/-- The path of what a chain of names leads to from the directory `p`. -/
def joinAll (p : Path) (names : List Name) : Path := names.foldl join p

@[simp] theorem joinAll_nil (p : Path) : p.joinAll [] = p := rfl

@[simp] theorem joinAll_cons (p : Path) (name : Name) (names : List Name) :
    p.joinAll (name :: names) = (p.join name).joinAll names := rfl

theorem joinAll_append (p : Path) (a b : List Name) :
    p.joinAll (a ++ b) = (p.joinAll a).joinAll b := List.foldl_append

theorem ofNames_eq_joinAll (names : List Name) : ofNames names = (⟨[]⟩ : Path).joinAll names := rfl

variable {p : Path} {name : Name}

/-! ### One name more -/

theorem bytes_join (p : Path) (name : Name) :
    (p.join name).bytes =
      p.bytes ++ (if p.isEmpty || p.endsInSlash then [] else [Bytes.slash]) ++ name := by
  unfold join
  split <;> simp

theorem isEmpty_join (hname : Name.Valid name) : (p.join name).isEmpty = false := by
  have hne := hname.ne_nil
  simp [isEmpty, bytes_join, hne]

theorem endsInSlash_join (hname : Name.Valid name) : (p.join name).endsInSlash = false := by
  obtain ⟨front, last, rfl⟩ := (List.eq_nil_or_concat' name).resolve_left hname.ne_nil
  have hlast : last ≠ Bytes.slash := fun h => hname.slash_notMem (by simp [h])
  simp [endsInSlash, bytes_join, hlast]

/-- The segments of a grown path: the last one is empty after a slash, and the name takes its
place. -/
theorem segments_join (hname : Name.Normal name) :
    (p.join name).segments =
      (if p.isEmpty || p.endsInSlash then p.segments.dropLast else p.segments) ++ [name] := by
  have hsplit : name.splitOn Bytes.slash = [name] := List.splitOn_eq_singleton hname.slash_notMem
  unfold segments join
  by_cases hempty : p.isEmpty = true
  · have hbytes : p.bytes = [] := List.isEmpty_iff.1 hempty
    simp [hempty, hbytes, hsplit]
  · by_cases hslash : p.endsInSlash = true
    · obtain ⟨front, hfront⟩ := List.getLast?_eq_some_iff.1 (beq_iff_eq.1 hslash)
      simp [hslash, hfront, List.splitOn_append_cons_self, hsplit, List.append_assoc]
    · simp [hempty, hslash, List.splitOn_append_cons_self, hsplit]

theorem isAbsolute_join (hname : Name.Valid name) : (p.join name).isAbsolute = p.isAbsolute := by
  obtain ⟨bytes⟩ := p
  cases bytes with
  | nil =>
    obtain ⟨b, rest, rfl⟩ := List.exists_cons_of_ne_nil hname.ne_nil
    have hb : b ≠ Bytes.slash := fun h => hname.slash_notMem (h ▸ List.mem_cons_self ..)
    simp [isAbsolute, bytes_join, isEmpty, hb]
  | cons b rest => simp [isAbsolute, bytes_join]

/-- After a slash the last segment is empty. -/
theorem segments_of_open (h : (p.isEmpty || p.endsInSlash) = true) :
    p.segments = p.segments.dropLast ++ [[]] := by
  rcases Bool.or_eq_true_iff.1 h with hempty | hslash
  · have hbytes : p.bytes = [] := List.isEmpty_iff.1 hempty
    simp [segments, hbytes]
  · obtain ⟨front, hfront⟩ := List.getLast?_eq_some_iff.1 (beq_iff_eq.1 hslash)
    simp [segments, hfront, List.splitOn_append_cons_self]

/-- Joining a name adds one step to walk. -/
theorem steps_join (hname : Name.Normal name) : (p.join name).steps = p.steps ++ [name] := by
  have hne := hname.ne_nil
  rw [steps, steps, segments_join hname]
  split
  · next h =>
    conv_rhs => rw [segments_of_open h]
    simp [List.filter_append, hne]
  · simp [List.filter_append, hne]

theorem ofSegment?_of_valid (hname : Name.Valid name) :
    Component.ofSegment? name = some (.name name) := by
  simp [Component.ofSegment?, hname.ne_nil, hname.ne_dot, hname.ne_dotDot]

/-- Joining a name adds one component to compare. -/
theorem components_join (hname : Name.Valid name) :
    (p.join name).components = p.components ++ [.name name] := by
  have hlast : [name].filterMap Component.ofSegment? = [.name name] := by
    simp [ofSegment?_of_valid hname]
  have hempty : [([] : Bytes)].filterMap Component.ofSegment? = [] := rfl
  have hbody : (p.join name).segments.filterMap Component.ofSegment? =
      p.segments.filterMap Component.ofSegment? ++ [.name name] := by
    rw [segments_join hname.normal, List.filterMap_append, hlast]
    split
    · next h =>
      conv_rhs => rw [segments_of_open h, List.filterMap_append, hempty, List.append_nil]
    · rfl
  have hhead : (p.join name).segments.head? = some Bytes.dot ↔ p.segments.head? = some Bytes.dot := by
    rw [segments_join hname.normal]
    split
    · next h =>
      conv_rhs => rw [segments_of_open h]
      cases p.segments.dropLast with
      | nil => simpa [Bytes.dot] using hname.ne_dot
      | cons s rest => simp
    · obtain ⟨s, rest, hs⟩ := List.exists_cons_of_ne_nil (List.splitOn_ne_nil Bytes.slash p.bytes)
      simp [segments, hs]
  unfold components
  simp only [isAbsolute_join hname, hbody, hhead]
  split
  · rfl
  · split <;> rfl

/-! ### A chain of names -/

variable {names : List Name}

/-- Joining names adds them to the steps to walk, whether or not a directory can hold them. -/
theorem steps_joinAll_of_normal (p : Path) (h : ∀ name ∈ names, Name.Normal name) :
    (p.joinAll names).steps = p.steps ++ names := by
  induction names generalizing p with
  | nil => simp
  | cons name rest ih =>
    rw [List.forall_mem_cons] at h
    rw [joinAll_cons, ih (p.join name) h.2, steps_join h.1, List.append_assoc]
    rfl

theorem steps_joinAll (p : Path) (h : ∀ name ∈ names, Name.Valid name) :
    (p.joinAll names).steps = p.steps ++ names :=
  steps_joinAll_of_normal p fun name hname => (h name hname).normal

theorem isAbsolute_joinAll (p : Path) (h : ∀ name ∈ names, Name.Valid name) :
    (p.joinAll names).isAbsolute = p.isAbsolute := by
  induction names generalizing p with
  | nil => rfl
  | cons name rest ih =>
    rw [List.forall_mem_cons] at h
    rw [joinAll_cons, ih (p.join name) h.2, isAbsolute_join h.1]

theorem components_joinAll (p : Path) (h : ∀ name ∈ names, Name.Valid name) :
    (p.joinAll names).components = p.components ++ names.map .name := by
  induction names generalizing p with
  | nil => simp
  | cons name rest ih =>
    rw [List.forall_mem_cons] at h
    rw [joinAll_cons, ih (p.join name) h.2, components_join h.1, List.append_assoc]
    rfl

theorem isEmpty_joinAll (hp : p.isEmpty = false) (h : ∀ name ∈ names, Name.Valid name) :
    (p.joinAll names).isEmpty = false := by
  induction names generalizing p with
  | nil => exact hp
  | cons name rest ih =>
    rw [List.forall_mem_cons] at h
    exact ih (isEmpty_join h.1) h.2

theorem endsInSlash_joinAll (p : Path) (h : ∀ name ∈ names, Name.Valid name) (hne : names ≠ []) :
    (p.joinAll names).endsInSlash = false := by
  obtain ⟨front, last, rfl⟩ := (List.eq_nil_or_concat' names).resolve_left hne
  rw [joinAll_append]
  exact endsInSlash_join (h last (by simp))

/-- Different chains grow different paths. -/
theorem joinAll_injective {a b : List Name} (ha : ∀ name ∈ a, Name.Valid name)
    (hb : ∀ name ∈ b, Name.Valid name) (h : p.joinAll a = p.joinAll b) : a = b := by
  have hsteps : p.steps ++ a = p.steps ++ b := by
    rw [← steps_joinAll p ha, ← steps_joinAll p hb, h]
  exact List.append_cancel_left hsteps

/-- The names that a relative path was made of are the steps to walk on it. -/
theorem steps_ofNames (h : ∀ name ∈ names, Name.Valid name) : (ofNames names).steps = names := by
  rw [ofNames_eq_joinAll, steps_joinAll _ h]
  rfl

/-- What a base and a path have in common is dropped. -/
theorem difference_append (base rest : List Component) :
    difference [] (base ++ rest) base = some rest := by
  induction base with
  | nil => cases rest <;> simp [difference]
  | cons c base ih => simp [difference, ih]

theorem ofComponents_names (names : List Name) :
    ofComponents (names.map .name) = ofNames names := by
  unfold ofComponents ofNames
  rw [List.foldl_map]
  rfl

/-- A grown path, seen from where it started, is the chain of names. -/
theorem relativeTo?_joinAll (p : Path) (h : ∀ name ∈ names, Name.Valid name) :
    (p.joinAll names).relativeTo? p = some (ofNames names) := by
  simp [relativeTo?, isAbsolute_joinAll p h, components_joinAll p h, difference_append,
    ofComponents_names]

/-- Past a name, each further name comes after a slash. -/
theorem bytes_joinAll (hempty : p.isEmpty = false) (hslash : p.endsInSlash = false)
    (h : ∀ name ∈ names, Name.Valid name) :
    (p.joinAll names).bytes = p.bytes ++ names.flatMap (Bytes.slash :: ·) := by
  induction names generalizing p with
  | nil => simp
  | cons name rest ih =>
    rw [List.forall_mem_cons] at h
    rw [joinAll_cons, ih (isEmpty_join h.1) (endsInSlash_join h.1) h.2, bytes_join, hempty, hslash]
    simp

/-- The bytes of a relative path: its names, each but the first after a slash. -/
theorem bytes_ofNames (hname : Name.Valid name) (h : ∀ name ∈ names, Name.Valid name) :
    (ofNames (name :: names)).bytes = name ++ names.flatMap (Bytes.slash :: ·) := by
  rw [ofNames_eq_joinAll, joinAll_cons, bytes_joinAll (isEmpty_join hname) (endsInSlash_join hname) h,
    bytes_join]
  rfl

/-- Joined to a directory, a relative path grows it by its names. -/
theorem join_ofNames (p : Path) (h : ∀ name ∈ names, Name.Valid name) (hne : names ≠ []) :
    p.join (ofNames names).bytes = p.joinAll names := by
  obtain ⟨first, rest, rfl⟩ := List.exists_cons_of_ne_nil hne
  rw [List.forall_mem_cons] at h
  have hbytes : (p.join (ofNames (first :: rest)).bytes).bytes = (p.joinAll (first :: rest)).bytes := by
    rw [bytes_join, bytes_ofNames h.1 h.2, joinAll_cons,
      bytes_joinAll (isEmpty_join h.1) (endsInSlash_join h.1) h.2, bytes_join]
    simp
  exact congrArg Path.mk hbytes

/-- A relative path is made of its names and nothing else. -/
theorem components_ofNames (h : ∀ name ∈ names, Name.Valid name) :
    (ofNames names).components = names.map .name :=
  components_joinAll ⟨[]⟩ h

theorem isAbsolute_ofNames (h : ∀ name ∈ names, Name.Valid name) :
    (ofNames names).isAbsolute = false :=
  isAbsolute_joinAll ⟨[]⟩ h

/-- A grown path holds a NUL only if the path did. -/
theorem nul_mem_joinAll (p : Path) (h : ∀ name ∈ names, Name.Valid name) :
    (0 : UInt8) ∈ (p.joinAll names).bytes ↔ (0 : UInt8) ∈ p.bytes := by
  induction names generalizing p with
  | nil => rfl
  | cons name rest ih =>
    rw [List.forall_mem_cons] at h
    have hnul := h.1.nul_notMem
    rw [joinAll_cons, ih (p.join name) h.2, bytes_join]
    split <;> simp [hnul, Bytes.slash]

/-- Names make a path no shorter. -/
theorem length_le_length_joinAll (p : Path) (names : List Name) :
    p.bytes.length ≤ (p.joinAll names).bytes.length := by
  induction names generalizing p with
  | nil => exact Nat.le_refl _
  | cons name rest ih =>
    have hjoin : p.bytes.length ≤ (p.join name).bytes.length := by
      rw [bytes_join, List.append_assoc, List.length_append]
      exact Nat.le_add_right _ _
    rw [joinAll_cons]
    exact Nat.le_trans hjoin (ih _)

/-- A path that follows the names of a tree grows by no more than the tree reaches. -/
theorem length_joinAll_le (p : Path) {node found : Node} (hat : node.at? names = some found) :
    (p.joinAll names).bytes.length + found.reach ≤ p.bytes.length + node.reach := by
  induction names generalizing p node with
  | nil =>
    obtain ⟨rfl⟩ := hat
    exact Nat.le_refl _
  | cons name rest ih =>
    obtain ⟨entries, child, rfl, hfind, hchild⟩ := Node.at?_cons_eq_some hat
    have hjoin : (p.join name).bytes.length ≤ p.bytes.length + 1 + name.length := by
      rw [bytes_join]
      split
      · simp
      · simp
        omega
    have hreach : name.length + 1 + child.reach ≤ Node.reachAll entries :=
      Node.reach_le_reachAll (Listing.mem_of_find? hfind)
    have hrest := ih (p.join name) hchild
    rw [joinAll_cons, Node.reach]
    omega

end SourceBundle.Path
