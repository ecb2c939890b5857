import Mathlib.Data.List.Basic
import SourceBundle.Disk.World
import SourceBundle.Proofs.Path.Joining

/-!
Walks taken one name at a time. What the disk has to say about a walk is how it goes on from a place
under a name; everything else is the same on all disks. A walk through directories only can be cut
at any of them, and what is left of it is a walk of its own, with the links that are left. So the
entry under a chain of names is looked up from the directory that the start of the path leads to.
-/

namespace SourceBundle

/-- How a walk goes on from a place under one name. -/
inductive Turn where
  | move (there : Place)
  | link (target : Path)
  /-- The directory has no such entry. -/
  | missing
  | barred (cause : Errno)
  deriving DecidableEq, Repr

/-- The place that a chain of names leads to from a place. -/
def Place.below (place : Place) (names : List Name) : Place :=
  names.foldl (fun p n => p.child n) place

theorem Place.below_named (trail names : List Name) :
    (Place.named trail).below names = .named (trail ++ names) := by
  induction names generalizing trail with
  | nil => simp [Place.below]
  | cons name rest ih =>
    have := ih (trail ++ [name])
    simpa [Place.below, Place.child] using this

namespace Disk

/-- How a walk over the disk goes on from a place under one name. -/
def turn (d : Disk) (place : Place) (name : Name) : Turn :=
  match d.node? place with
  | some (.directory entries) =>
    if name = Bytes.dot then .move place
    else if name = Bytes.dotDot then .move place.parent
    else
      match place with
      | .removed _ => .missing
      | .named _ =>
        if maxName < name.length then .barred .nameTooLong
        else
          match Listing.find? entries name with
          | none => .missing
          | some (.link target) => .link target
          | some _ => .move (place.child name)
  | _ => .barred .notDirectory

variable {d : Disk} {place : Place} {name : Name} {names rest : List Name} {followLast slash : Bool}

/-- What a directory lists stands under its name. -/
theorem node?_listed {trail : List Name} {entries : Listing}
    (h : d.node? (.named trail) = some (.directory entries)) (name : Name) :
    d.node? (.named (trail ++ [name])) = Listing.find? entries name := by
  have hchild := d.node?_child trail name
  rwa [h, Option.bind_some, Node.entries, Place.child] at hchild

@[simp] theorem advance_nil (d : Disk) (followLast : Bool) (place : Place) :
    d.advance followLast place [] = .found place := by
  simp [advance, advanceFrom]

/-- A straight walk goes on as its first name says. -/
theorem advance_cons (d : Disk) (followLast : Bool) (place : Place) (name : Name)
    (rest : List Name) :
    d.advance followLast place (name :: rest) =
      match d.turn place name with
      | .move there => d.advance followLast there rest
      | .link target =>
        if rest.isEmpty && !followLast then .found (place.child name) else .link place target rest
      | .missing => if rest.isEmpty then .vacant place name else .blocked .noEntry
      | .barred cause => .blocked cause := by
  unfold advance turn
  cases hnode : d.node? place with
  | none => simp [advanceFrom]
  | some node =>
    cases node with
    | file content => simp [advanceFrom]
    | link target => simp [advanceFrom]
    | device kind => simp [advanceFrom]
    | directory entries =>
      by_cases hdot : name = Bytes.dot
      · simp [advanceFrom, hdot, hnode]
      by_cases hup : name = Bytes.dotDot
      · simp [advanceFrom, hup, Bytes.dot, Bytes.dotDot]
      cases place with
      | removed above => simp [advanceFrom, hdot, hup]
      | named trail =>
        by_cases hlong : maxName < name.length
        · simp [advanceFrom, hdot, hup, hlong]
        cases hfind : Listing.find? entries name with
        | none => simp [advanceFrom, hdot, hup, hlong, hfind]
        | some child =>
          have hchild : d.node? ((Place.named trail).child name) = some child := by
            rw [node?_child, hnode]
            exact hfind
          cases child <;> simp [advanceFrom, hdot, hup, hlong, hfind, hchild]

/-- A straight walk that ends without a link to follow can be made longer. -/
theorem advance_append {there : Place} (h : d.advance true place names = .found there)
    (followLast : Bool) (rest : List Name) :
    d.advance followLast place (names ++ rest) = d.advance followLast there rest := by
  induction names generalizing place with
  | nil =>
    obtain ⟨rfl⟩ := (advance_nil d true place).symm.trans h
    rfl
  | cons name names ih =>
    rw [List.cons_append]
    rw [advance_cons] at h ⊢
    cases hturn : d.turn place name with
    | move next =>
      rw [hturn] at h
      exact ih h
    | link target =>
      rw [hturn] at h
      simp at h
    | missing =>
      rw [hturn] at h
      simp only at h
      split at h <;> cases h
    | barred cause =>
      rw [hturn] at h
      cases h

/-- A straight walk that stops at a link stops there too when more names come after it. -/
theorem advance_append_link {at_ : Place} {target : Path} {left : List Name}
    (h : d.advance true place names = .link at_ target left) (followLast : Bool) (rest : List Name)
    (hrest : rest ≠ []) :
    d.advance followLast place (names ++ rest) = .link at_ target (left ++ rest) := by
  induction names generalizing place with
  | nil =>
    rw [advance_nil] at h
    cases h
  | cons name names ih =>
    rw [List.cons_append]
    rw [advance_cons] at h ⊢
    cases hturn : d.turn place name with
    | move next =>
      rw [hturn] at h
      exact ih h
    | link target' =>
      rw [hturn] at h
      obtain ⟨rfl, rfl, rfl⟩ : place = at_ ∧ target' = target ∧ names = left := by simpa using h
      simp [hrest]
    | missing =>
      rw [hturn] at h
      simp only at h
      split at h <;> cases h
    | barred cause =>
      rw [hturn] at h
      cases h

/-- Without following a last link, a straight walk goes as it does with following, or finds the last
link itself. -/
theorem advance_false (d : Disk) (place : Place) (names : List Name) :
    d.advance false place names = d.advance true place names ∨
      ∃ dir name target, d.turn dir name = .link target ∧
        d.advance false place names = .found (dir.child name) ∧
        d.advance true place names = .link dir target [] := by
  induction names generalizing place with
  | nil => exact .inl (by simp)
  | cons name rest ih =>
    rw [advance_cons, advance_cons]
    cases hturn : d.turn place name with
    | move next => exact ih next
    | link target =>
      cases rest with
      | nil => exact .inr ⟨place, name, target, hturn, by simp, by simp⟩
      | cons name' rest => exact .inl (by simp)
    | missing => exact .inl rfl
    | barred cause => exact .inl rfl

/-! ### Links on the way -/

theorem chase_append_of_advance {there : Place} (h : d.advance true place names = .found there)
    (followLast : Bool) (links : Nat) (rest : List Name) (slash : Bool) :
    d.chase followLast links place (names ++ rest) slash =
      d.chase followLast links there rest slash := by
  rw [chase.eq_def, chase.eq_def, advance_append h]

/-- A walk that has found its end has followed some number of links, and with fewer it is stopped. It can
be made longer: what comes after is walked from there, with all the links that are left. -/
theorem chase_append {links : Nat} {there : Place} {slash' : Bool}
    (h : d.chase true links place names slash = .found there slash') :
    ∃ used, used ≤ links ∧
      (∀ fewer, d.chase true fewer place names slash = .blocked .tooManyLinks ↔ fewer < used) ∧
      ∀ (left : Nat) (followLast : Bool) (rest : List Name) (slash : Bool), rest ≠ [] →
        d.chase followLast (used + left) place (names ++ rest) slash =
          d.chase followLast left there rest slash := by
  induction links using Nat.strongRecOn generalizing place names slash with
  | _ links ih =>
    rw [chase.eq_def, Bool.true_or] at h
    cases hadv : d.advance true place names with
    | found there' =>
      obtain ⟨rfl, rfl⟩ : there' = there ∧ slash = slash' := by simpa [hadv] using h
      refine ⟨0, Nat.zero_le links, ?_, ?_⟩
      · intro fewer
        rw [chase.eq_def, Bool.true_or, hadv]
        simp
      · intro left followLast rest slash _
        rw [Nat.zero_add]
        exact chase_append_of_advance hadv ..
    | vacant dir name => simp [hadv] at h
    | blocked cause => simp [hadv] at h
    | link dir target rest =>
      rw [hadv] at h
      cases links with
      | zero => cases h
      | succ links =>
        obtain ⟨used, hle, hfewer, hleft⟩ := ih links (Nat.lt_succ_self links) h
        refine ⟨used + 1, Nat.succ_le_succ hle, ?_, ?_⟩
        · intro fewer
          rw [chase.eq_def, Bool.true_or, hadv]
          cases fewer with
          | zero => simp
          | succ fewer => rw [Nat.add_lt_add_iff_right]; exact hfewer fewer
        · intro left followLast after slash hafter
          have hempty : (rest ++ after).isEmpty = false := by simp [hafter]
          rw [Nat.add_right_comm, chase.eq_def, advance_append_link hadv _ _ hafter]
          simp only [hempty, Bool.false_and, Bool.or_false]
          rw [← List.append_assoc]
          exact hleft left followLast after slash hafter

/-- A walk that the limit on links has not ended goes the same way with more links. -/
theorem chase_mono {links more : Nat}
    (h : d.chase followLast links place names slash ≠ .blocked .tooManyLinks) (hle : links ≤ more) :
    d.chase followLast more place names slash = d.chase followLast links place names slash := by
  induction links using Nat.strongRecOn generalizing place names slash more with
  | _ links ih =>
    rw [chase.eq_def] at h ⊢
    rw [chase.eq_def d followLast links]
    cases hadv : d.advance (followLast || slash) place names with
    | found there => rfl
    | vacant dir name => rfl
    | blocked cause => rfl
    | link dir target rest =>
      rw [hadv] at h
      cases links with
      | zero => exact absurd rfl h
      | succ links =>
        obtain ⟨more, rfl⟩ : ∃ n, more = n + 1 := Nat.exists_eq_add_one.2 (by omega)
        exact ih links (Nat.lt_succ_self links) h (Nat.le_of_succ_le_succ hle)

/-- More links make no difference to a walk that the limit stops only when nothing would end it. -/
theorem chase_eq_of_le {links more : Nat} (hle : links ≤ more)
    (h : d.chase followLast links place names slash = .blocked .tooManyLinks →
      ∀ extra, d.chase followLast (links + extra) place names slash = .blocked .tooManyLinks) :
    d.chase followLast more place names slash = d.chase followLast links place names slash := by
  by_cases hblocked : d.chase followLast links place names slash = .blocked .tooManyLinks
  · obtain ⟨extra, rfl⟩ := Nat.exists_eq_add_of_le hle
    rw [h hblocked extra, hblocked]
  · exact chase_mono hblocked hle

/-- A walk goes on from where its first name leads. -/
theorem chase_move {there : Place} (h : d.turn place name = .move there) (followLast : Bool)
    (links : Nat) (rest : List Name) (slash : Bool) :
    d.chase followLast links place (name :: rest) slash =
      d.chase followLast links there rest slash := by
  rw [chase.eq_def, chase.eq_def, advance_cons, h]

/-- Under a link stands the link. -/
theorem node?_of_turn_link {dir : Place} {target : Path} (h : d.turn dir name = .link target) :
    d.node? (dir.child name) = some (.link target) := by
  unfold turn at h
  split at h
  · next entries hnode =>
    split at h
    · cases h
    split at h
    · cases h
    cases dir with
    | removed above => cases h
    | named trail =>
      simp only at h
      split at h
      · cases h
      rw [node?_child, hnode]
      cases hfind : Listing.find? entries name with
      | none => simp [hfind] at h
      | some child => cases child <;> simp_all [Node.entries]
  · cases h

/-- Without following a last link, a walk goes as it does with following, or finds a link. -/
theorem chase_false (d : Disk) (links : Nat) (place : Place) (names : List Name) (slash : Bool) :
    d.chase false links place names slash = d.chase true links place names slash ∨
      slash = false ∧ ∃ there target, d.node? there = some (.link target) ∧
        d.chase false links place names slash = .found there false := by
  induction links using Nat.strongRecOn generalizing place names slash with
  | _ links ih =>
    rw [chase.eq_def, chase.eq_def]
    -- a slash has the last link followed either way
    have hstep : d.advance (false || slash) place names = d.advance (true || slash) place names ∨
        slash = false ∧ ∃ dir name target, d.turn dir name = .link target ∧
          d.advance (false || slash) place names = .found (dir.child name) := by
      cases slash with
      | true => exact .inl rfl
      | false =>
        rcases advance_false d place names with heq | ⟨dir, name, target, hturn, hfound, -⟩
        · exact .inl heq
        · exact .inr ⟨rfl, dir, name, target, hturn, hfound⟩
    rcases hstep with hsame | ⟨rfl, dir, name, target, hturn, hfound⟩
    · rw [hsame]
      cases d.advance (true || slash) place names with
      | found there => exact .inl rfl
      | vacant dir name => exact .inl rfl
      | blocked cause => exact .inl rfl
      | link dir target rest =>
        cases links with
        | zero => exact .inl rfl
        | succ links =>
          have hrest := ih links (Nat.lt_succ_self links) (origin target dir) (target.steps ++ rest)
            (slash || (rest.isEmpty && target.endsInSlash))
          refine hrest.imp_right ?_
          rintro ⟨hslash, hthere⟩
          exact ⟨(Bool.or_eq_false_iff.1 hslash).1, hthere⟩
    · rw [hfound]
      exact .inr ⟨rfl, dir.child name, target, node?_of_turn_link hturn, rfl⟩

end Disk

end SourceBundle
