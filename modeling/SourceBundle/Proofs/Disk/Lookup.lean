import SourceBundle.Proofs.Disk.Resolution

/-!
What paths below a directory lead to. Once the start of a path is known to lead to a directory, an
entry under it is found by its names alone: through real directories no link is followed and nothing
else is looked up. What the start of the path costs is a number of links, the same for all entries
below it.
-/

namespace SourceBundle

/-! ### Below a place -/

namespace Disk

variable {d : Disk} {place : Place} {entries : Listing} {name : Name} {child : Node}

theorem node?_append {top : Node} {trail : List Name} (htop : d.node? (.named trail) = some top)
    (names : List Name) : d.node? (.named (trail ++ names)) = top.at? names := by
  simp only [node?] at htop ⊢
  rw [Node.at?_append, htop]
  rfl

/-- Below nothing stands nothing. -/
theorem node?_append_of_none {trail : List Name} (h : d.node? (.named trail) = none)
    (names : List Name) : d.node? (.named (trail ++ names)) = none := by
  simp only [node?] at h ⊢
  rw [Node.at?_append, h]
  rfl

/-- On the way to a directory stand directories. -/
theorem directory_of_append {front back : List Name}
    (h : d.node? (.named (front ++ back)) = some (.directory entries)) :
    ∃ above, d.node? (.named front) = some (.directory above) := by
  rw [node?, Node.at?_append] at h
  obtain ⟨node, hnode, hback⟩ := Option.bind_eq_some_iff.1 h
  cases back with
  | nil =>
    obtain ⟨rfl⟩ := hback
    exact ⟨entries, hnode⟩
  | cons name rest =>
    obtain ⟨above, -, rfl, -⟩ := Node.at?_cons_eq_some hback
    exact ⟨above, hnode⟩

/-- What stands below a place is what its tree holds there. -/
theorem node?_below {top found : Node} {names : List Name} (htop : d.node? place = some top)
    (hat : top.at? names = some found) : d.node? (place.below names) = some found := by
  cases place with
  | named trail =>
    rw [Place.below_named, node?_append htop]
    exact hat
  | removed above =>
    obtain ⟨rfl⟩ := htop
    cases names with
    | nil => exact hat
    | cons name rest =>
      obtain ⟨_, _, hdir, hfind, _⟩ := Node.at?_cons_eq_some hat
      cases hdir
      cases hfind

/-- A walk goes on from a directory as the entry under the name says. -/
theorem turn_of_find? (hnode : d.node? place = some (.directory entries)) (hname : Name.Valid name)
    (hfind : Listing.find? entries name = some child) :
    d.turn place name =
      match child with
      | .link target => .link target
      | _ => .move (place.child name) := by
  have hlong : ¬ maxName < name.length := Nat.not_lt.2 hname.length_le
  cases place with
  | named trail =>
    simp only [turn, hnode, hname.ne_dot, hname.ne_dotDot, hlong, hfind, if_false]
    cases child <;> rfl
  | removed above =>
    cases hnode
    cases hfind

/-- A walk passes through real directories without following a link. -/
theorem chase_below {top found : Node} {names : List Name} (htop : d.node? place = some top)
    (hvalid : top.Valid) (hat : top.at? names = some found) (hlink : ∀ target, found ≠ .link target)
    (followLast : Bool) (links : Nat) (rest : List Name) (slash : Bool) :
    d.chase followLast links place (names ++ rest) slash =
      d.chase followLast links (place.below names) rest slash := by
  induction names generalizing place top with
  | nil => rfl
  | cons name names ih =>
    obtain ⟨entries, child, rfl, hfind, hchild⟩ := Node.at?_cons_eq_some hat
    have hname := hvalid.listing.name_of_find? hfind
    have hnotLink : ∀ target, child ≠ .link target := by
      rintro target rfl
      cases names with
      | nil =>
        obtain ⟨rfl⟩ := hchild
        exact hlink target rfl
      | cons name' rest' =>
        obtain ⟨_, _, hdir, _⟩ := Node.at?_cons_eq_some hchild
        cases hdir
    have hturn : d.turn place name = .move (place.child name) := by
      rw [turn_of_find? htop hname hfind]
      cases child <;> first | rfl | exact absurd rfl (hnotLink _)
    have hnext : d.node? (place.below [name]) = some child := by
      refine node?_below htop ?_
      rw [Node.at?_cons hfind]
      rfl
    rw [List.cons_append, chase_move hturn]
    exact ih hnext (hvalid.find? hfind) hchild

end Disk

/-! ### What a path leads to -/

/-- The bytes that a file gives; a device gives none. -/
def Node.content : Node → Bytes
  | .file content => content
  | _ => []

namespace World

/-- The small disk as the project on it sees it. -/
def sample : World where
  disk := Disk.sample
  cwd := .named [[0x70]]
  homeVariable := none
  accountHome := "/p"

variable {w : World} {root p : Path} {place : Place} {node : Node} {entries : Listing}
  {names : List Name}

theorem settle_eq_ok_iff {goal : Disk.Goal} :
    w.settle goal = .ok (place, node) ↔
      ∃ slash, goal = .found place slash ∧ w.disk.node? place = some node ∧
        (slash = true → node.isDirectory = true) := by
  cases goal with
  | vacant dir name slash => simp [settle]
  | blocked cause => simp [settle]
  | found there slash =>
    constructor
    · intro h
      cases hnode : w.disk.node? there with
      | none => simp [settle, hnode] at h
      | some found =>
        simp only [settle, hnode] at h
        split at h
        · cases h
        · next hslash =>
          cases h
          exact ⟨slash, rfl, hnode, by simpa using hslash⟩
    · rintro ⟨slash', hgoal, hnode, hslash⟩
      cases hgoal
      cases slash <;> simp_all [settle]

theorem follow_eq_ok_iff :
    w.follow p = .ok (place, node) ↔
      p.refusal? = none ∧ ∃ slash, w.locate true p = .found place slash ∧
        w.disk.node? place = some node ∧ (slash = true → node.isDirectory = true) := by
  unfold follow
  cases p.refusal? with
  | some cause => simp
  | none => simp [settle_eq_ok_iff]

theorem inspect_eq_ok_iff :
    w.inspect p = .ok (place, node) ↔
      p.refusal? = none ∧ ∃ slash, w.locate false p = .found place slash ∧
        w.disk.node? place = some node ∧ (slash = true → node.isDirectory = true) := by
  unfold inspect
  cases p.refusal? with
  | some cause => simp
  | none => simp [settle_eq_ok_iff]

theorem isDirectory_iff :
    w.isDirectory p = true ↔ ∃ place entries, w.follow p = .ok (place, .directory entries) := by
  unfold isDirectory
  cases w.follow p with
  | error cause => simp
  | ok found =>
    obtain ⟨place, node⟩ := found
    cases node <;> simp [Node.isDirectory]

/-- A directory named by a path is also what the path leads to. -/
theorem follow_of_inspect (h : w.inspect p = .ok (place, .directory entries)) :
    w.follow p = .ok (place, .directory entries) := by
  obtain ⟨hrefusal, slash, hlocate, hnode, -⟩ := inspect_eq_ok_iff.1 h
  rcases w.disk.chase_false maxLinks (Disk.origin p w.cwd) p.steps p.endsInSlash with
    heq | ⟨-, there, target, hlink, hfound⟩
  · exact follow_eq_ok_iff.2 ⟨hrefusal, slash, heq.symm.trans hlocate, hnode, fun _ => rfl⟩
  · obtain ⟨rfl, -⟩ : there = place ∧ false = slash := by
      simpa [locate, hfound] using hlocate
    rw [hnode] at hlink
    cases hlink

/-- A path that leads to a directory names it, or names a link. -/
theorem inspect_of_follow (h : w.follow p = .ok (place, .directory entries)) :
    w.inspect p = .ok (place, .directory entries) ∨
      ∃ there target, w.inspect p = .ok (there, .link target) := by
  obtain ⟨hrefusal, slash, hlocate, hnode, -⟩ := follow_eq_ok_iff.1 h
  rcases w.disk.chase_false maxLinks (Disk.origin p w.cwd) p.steps p.endsInSlash with
    heq | ⟨-, there, target, hlink, hfound⟩
  · exact .inl (inspect_eq_ok_iff.2 ⟨hrefusal, slash, heq.trans hlocate, hnode, fun _ => rfl⟩)
  · exact .inr ⟨there, target, inspect_eq_ok_iff.2 ⟨hrefusal, false, hfound, hlink, by simp⟩⟩

/-! ### Entries below a directory -/

/-- A path is walked when it has no NUL, some byte, and not too many of them. -/
theorem refusal?_eq_none_iff :
    p.refusal? = none ↔
      (0 : UInt8) ∉ p.bytes ∧ p.isEmpty = false ∧ p.bytes.length < maxPath := by
  unfold Path.refusal?
  by_cases hnul : (0 : UInt8) ∈ p.bytes
  · simp [hnul]
  · cases p.isEmpty <;> by_cases hlen : maxPath ≤ p.bytes.length <;> simp [hnul]

/-- A grown path is refused only for its length. -/
theorem refusal?_joinAll (hroot : root.refusal? = none) (h : ∀ name ∈ names, Name.Valid name) :
    (root.joinAll names).refusal? =
      if maxPath ≤ (root.joinAll names).bytes.length then some (.os .nameTooLong) else none := by
  obtain ⟨hnul, hempty, -⟩ := refusal?_eq_none_iff.1 hroot
  have hnul' : (0 : UInt8) ∉ (root.joinAll names).bytes := by rwa [Path.nul_mem_joinAll root h]
  simp [Path.refusal?, hnul', Path.isEmpty_joinAll hempty h]

/-- On the way to a path that is not refused no path is. -/
theorem refusal?_of_joinAll {more : List Name} (hroot : root.refusal? = none)
    (h : ∀ name ∈ names, Name.Valid name) (hrefusal : (root.joinAll (names ++ more)).refusal? = none) :
    (root.joinAll names).refusal? = none := by
  obtain ⟨-, -, hlength⟩ := refusal?_eq_none_iff.1 hrefusal
  rw [Path.joinAll_append] at hlength
  rw [refusal?_joinAll hroot h, if_neg (Nat.not_le.2 ?_)]
  exact Nat.lt_of_le_of_lt (Path.length_le_length_joinAll _ _) hlength

/-- Where following a path ends that may lead over `links` links. -/
def locateWithin (w : World) (links : Nat) (p : Path) : Disk.Goal :=
  w.disk.chase true links (Disk.origin p w.cwd) p.steps p.endsInSlash

/-- On the way to a directory a number of links is left that do not have to be followed. Past the directory
only the names below it are looked up, with all the links that are left. -/
theorem chase_joinAll (hroot : w.follow root = .ok (place, .directory entries)) :
    ∃ left, left ≤ maxLinks ∧
      (∀ links, w.locateWithin links root = .blocked .tooManyLinks ↔ links + left < maxLinks) ∧
      ∀ (more : Nat) (followLast : Bool) (names : List Name), names ≠ [] →
        (∀ name ∈ names, Name.Valid name) →
        w.disk.chase followLast (maxLinks + more) (Disk.origin (root.joinAll names) w.cwd)
            (root.joinAll names).steps (root.joinAll names).endsInSlash =
          w.disk.chase followLast (left + more) place names false := by
  obtain ⟨-, slash, hlocate, -, -⟩ := follow_eq_ok_iff.1 hroot
  obtain ⟨used, hle, hfewer, hused⟩ := Disk.chase_append hlocate
  obtain ⟨left, hmax⟩ := Nat.exists_eq_add_of_le hle
  refine ⟨left, by omega, ?_, ?_⟩
  · intro links
    rw [locateWithin, hfewer links]
    omega
  · intro more followLast names hne hnames
    have horigin : Disk.origin (root.joinAll names) w.cwd = Disk.origin root w.cwd := by
      simp [Disk.origin, Path.isAbsolute_joinAll root hnames]
    rw [horigin, Path.steps_joinAll root hnames, Path.endsInSlash_joinAll root hnames hne, hmax,
      Nat.add_assoc]
    exact hused (left + more) followLast names false hne

/-- An entry below a directory that is no link is found where it stands. -/
theorem locate_below (hdisk : w.disk.Valid)
    (hroot : w.follow root = .ok (place, .directory entries))
    (hne : names ≠ []) (hat : (Node.directory entries).at? names = some node)
    (hlink : ∀ target, node ≠ .link target) (followLast : Bool) :
    w.locate followLast (root.joinAll names) = .found (place.below names) false := by
  obtain ⟨-, -, -, htop, -⟩ := follow_eq_ok_iff.1 hroot
  have hvalid := hdisk.node? htop
  obtain ⟨left, -, -, hleft⟩ := chase_joinAll hroot
  have hbelow := Disk.chase_below htop hvalid hat hlink followLast left [] false
  rw [List.append_nil] at hbelow
  rw [locate, ← Nat.add_zero maxLinks, hleft 0 followLast names hne (hvalid.names hat),
    Nat.add_zero, hbelow, Disk.chase.eq_def]
  simp

/-- An entry that is no link is what its path leads to, as long as the path is not too long. -/
theorem follow_below (hdisk : w.disk.Valid)
    (hroot : w.follow root = .ok (place, .directory entries))
    (hat : (Node.directory entries).at? names = some node) (hlink : ∀ target, node ≠ .link target)
    (hrefusal : (root.joinAll names).refusal? = none) :
    w.follow (root.joinAll names) = .ok (place.below names, node) := by
  by_cases hne : names = []
  · subst hne
    obtain ⟨rfl⟩ := hat
    exact hroot
  · obtain ⟨-, -, -, htop, -⟩ := follow_eq_ok_iff.1 hroot
    exact follow_eq_ok_iff.2 ⟨hrefusal, false, locate_below hdisk hroot hne hat hlink true,
      Disk.node?_below htop hat, by simp⟩

/-- A file below a directory is read, as long as its path is not too long. -/
theorem read_below (hdisk : w.disk.Valid) (hroot : w.follow root = .ok (place, .directory entries))
    (hat : (Node.directory entries).at? names = some node) (hleaf : node.isDirectory = false)
    (hlink : ∀ target, node ≠ .link target) :
    w.read (root.joinAll names) =
      match (root.joinAll names).refusal? with
      | some cause => .error cause
      | none => .ok node.content := by
  cases hrefusal : (root.joinAll names).refusal? with
  | some cause => simp only [read, follow, hrefusal]
  | none =>
    rw [read, follow_below hdisk hroot hat hlink hrefusal]
    cases node with
    | directory => cases hleaf
    | link target => exact absurd rfl (hlink target)
    | _ => rfl

end World

end SourceBundle
