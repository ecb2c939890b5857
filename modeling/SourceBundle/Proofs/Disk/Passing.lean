import SourceBundle.Proofs.Disk.Resolution

/-!
Where a walk asks its way. A walk looks up names in some places only and learns nothing else of the
disk, so on another disk that answers alike in all of them it goes the same way.
-/

namespace SourceBundle.Disk

/-- The places in which a walk looks up a name, when it follows at most `links` links; the walk of a last
link's target is among them, be it followed or not. -/
inductive Passes (d : Disk) : Nat → Place → List Name → Place → Prop
  | here (links : Nat) (place : Place) (name : Name) (rest : List Name) :
      Passes d links place (name :: rest) place
  | onward {links : Nat} {place there passed : Place} {name : Name} {rest : List Name}
      (turn : d.turn place name = .move there) (later : Passes d links there rest passed) :
      Passes d links place (name :: rest) passed
  | led {links : Nat} {place passed : Place} {name : Name} {rest : List Name} {target : Path}
      (turn : d.turn place name = .link target)
      (later : Passes d links (origin target place) (target.steps ++ rest) passed) :
      Passes d (links + 1) place (name :: rest) passed

variable {d d' : Disk} {links more : Nat} {place dir there passed : Place} {names rest : List Name}
  {target : Path} {followLast slash s : Bool}

/-- With more links a walk comes to the same places and maybe to others. -/
theorem Passes.mono (h : d.Passes links place names passed) (hle : links ≤ more) :
    d.Passes more place names passed := by
  induction h generalizing more with
  | here => exact .here ..
  | onward turn _ ih => exact .onward turn (ih hle)
  | led turn _ ih =>
    obtain ⟨more, rfl⟩ : ∃ n, more = n + 1 := Nat.exists_eq_add_one.2 (by omega)
    exact .led turn (ih (Nat.le_of_succ_le_succ hle))

/-- What a walk passes after a link, it passes. -/
theorem passes_of_link (h : d.advance followLast place names = .link dir target rest)
    (hpasses : d.Passes links (origin target dir) (target.steps ++ rest) passed) :
    d.Passes (links + 1) place names passed := by
  induction names generalizing place with
  | nil => rw [advance_nil] at h; cases h
  | cons name names ih =>
    rw [advance_cons] at h
    cases hturn : d.turn place name with
    | move next =>
      rw [hturn] at h
      exact .onward hturn (ih h)
    | link target' =>
      simp only [hturn] at h
      split at h
      · cases h
      · obtain ⟨rfl, rfl, rfl⟩ := Halt.link.inj h
        exact .led hturn hpasses
    | missing => rw [hturn] at h; cases names <;> simp at h
    | barred cause => rw [hturn] at h; cases h

/-! ### Walks on a disk that answers alike -/

theorem advance_eq_of_passes
    (h : ∀ passed, d.Passes links place names passed →
      ∀ name, d'.turn passed name = d.turn passed name) (followLast : Bool) :
    d'.advance followLast place names = d.advance followLast place names := by
  induction names generalizing place with
  | nil => rw [advance_nil, advance_nil]
  | cons name names ih =>
    rw [advance_cons, advance_cons, h place (.here ..)]
    cases hturn : d.turn place name with
    | move next => exact ih fun passed hpasses => h passed (.onward hturn hpasses)
    | _ => rfl

/-- A walk goes the same way where the other disk answers alike in every place that it passes. -/
theorem chase_eq_of_passes
    (h : ∀ passed, d.Passes links place names passed →
      ∀ name, d'.turn passed name = d.turn passed name) (followLast slash : Bool) :
    d'.chase followLast links place names slash = d.chase followLast links place names slash := by
  induction links using Nat.strongRecOn generalizing place names slash with
  | _ links ih =>
    rw [chase.eq_def, chase.eq_def d, advance_eq_of_passes h]
    cases hadvance : d.advance (followLast || slash) place names with
    | link dir target rest =>
      cases links with
      | zero => rfl
      | succ links =>
        refine ih links (Nat.lt_succ_self links) ?_ _
        intro passed hpasses
        exact h passed (passes_of_link hadvance hpasses)
    | _ => rfl

/-! ### Where a walk ends -/

/-- What holds where a walk starts, at the root, and wherever the walk moves on to from a place that it
passes, holds where it ends. -/
theorem advance_induct {motive : Place → Prop} (start : motive place)
    (step : ∀ passed name next, d.Passes links place names passed → motive passed →
      d.turn passed name = .move next → motive next) :
    (∀ there, d.advance true place names = .found there → motive there) ∧
      ∀ dir target rest, d.advance true place names = .link dir target rest → motive dir := by
  induction names generalizing place with
  | nil => simpa using start
  | cons name names ih =>
    rw [advance_cons]
    cases hturn : d.turn place name with
    | move next =>
      refine ih (step place name next (.here ..) start hturn) ?_
      intro passed name' next' hpasses
      exact step passed name' next' (.onward hturn hpasses)
    | link target =>
      refine ⟨by simp, ?_⟩
      intro dir target' rest hlink
      obtain ⟨rfl, -, -⟩ : place = dir ∧ target = target' ∧ names = rest := by simpa using hlink
      exact start
    | missing => cases names <;> simp
    | barred cause => simp

theorem chase_induct {motive : Place → Prop} (start : motive place) (root : motive (.named []))
    (step : ∀ passed name next, d.Passes links place names passed → motive passed →
      d.turn passed name = .move next → motive next)
    (h : d.chase true links place names slash = .found there s) : motive there := by
  induction links using Nat.strongRecOn generalizing place names slash with
  | _ links ih =>
    obtain ⟨hfound, hlink⟩ := advance_induct start step
    rw [chase.eq_def, Bool.true_or] at h
    cases hadvance : d.advance true place names with
    | found there' =>
      rw [hadvance] at h
      obtain ⟨rfl, -⟩ := Goal.found.inj h
      exact hfound there' hadvance
    | vacant dir name => rw [hadvance] at h; cases h
    | blocked cause => rw [hadvance] at h; cases h
    | link dir target rest =>
      rw [hadvance] at h
      cases links with
      | zero => cases h
      | succ links =>
        refine ih links (Nat.lt_succ_self links) ?_ ?_ h
        · unfold origin
          split
          · exact root
          · exact hlink dir target rest hadvance
        · intro passed name next hpasses
          exact step passed name next (passes_of_link hadvance hpasses)

end SourceBundle.Disk
