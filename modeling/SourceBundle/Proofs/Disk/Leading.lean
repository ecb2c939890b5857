import SourceBundle.Proofs.Disk.Resolution

/-!
Walks that find their way on another disk. Where every step that goes on from a place goes on in the
same way on a second disk, a walk that comes to its end on the first comes to the same end there. A
walk that ends where an entry is missing comes to that entry as soon as the second disk has it. The
walk to where a file is to be written is such a walk, but for slashes, which it refuses.
-/

namespace SourceBundle

/-- Whether a walk goes on. -/
def Turn.isOpen : Turn → Bool
  | .move _ => true
  | .link _ => true
  | _ => false

namespace Disk

variable {d d' : Disk} {place there dir : Place} {name last : Name} {names : List Name}
  {followLast slash s : Bool} {links : Nat}

/-- On the first disk every walk that goes on from a place goes on as on the second. -/
def Leads (d' d : Disk) : Prop :=
  ∀ place name, (d.turn place name).isOpen = true → d'.turn place name = d.turn place name

theorem Leads.refl (d : Disk) : d.Leads d := fun _ _ _ => rfl

theorem Leads.trans {d'' : Disk} (h : d''.Leads d') (h' : d'.Leads d) : d''.Leads d := by
  intro place name hopen
  have hsame := h' place name hopen
  rw [h place name (by rw [hsame]; exact hopen), hsame]

/-- A straight walk that finds something, or a link, finds it on the other disk, and what it misses it
finds as soon as it is there. -/
theorem Leads.advance (h : d'.Leads d) (followLast : Bool) (place : Place) (names : List Name) :
    (∀ there, d.advance followLast place names = .found there →
      d'.advance followLast place names = .found there) ∧
    (∀ dir target rest, d.advance followLast place names = .link dir target rest →
      d'.advance followLast place names = .link dir target rest) ∧
    ∀ dir last, d.advance followLast place names = .vacant dir last →
      d.turn dir last = .missing ∧ names.getLast? = some last ∧
        ∀ there, d'.turn dir last = .move there →
          d'.advance followLast place names = .found there := by
  induction names generalizing place with
  | nil => simp
  | cons name rest ih =>
    rw [advance_cons, advance_cons]
    cases hturn : d.turn place name with
    | move next =>
      rw [h place name (by rw [hturn]; rfl), hturn]
      obtain ⟨hfound, hlink, hvacant⟩ := ih next
      refine ⟨hfound, hlink, ?_⟩
      intro dir last hlast
      obtain ⟨hmissing, hend, hthere⟩ := hvacant dir last hlast
      refine ⟨hmissing, ?_, hthere⟩
      rw [List.getLast?_cons, hend]
      rfl
    | link target =>
      rw [h place name (by rw [hturn]; rfl), hturn]
      refine ⟨fun _ hfound => hfound, fun _ _ _ hlink => hlink, ?_⟩
      intro dir last hvacant
      dsimp only at hvacant
      split at hvacant <;> cases hvacant
    | missing =>
      cases rest with
      | cons next rest =>
        exact ⟨fun _ hfound => (by cases hfound), fun _ _ _ hlink => (by cases hlink),
          fun _ _ hvacant => (by cases hvacant)⟩
      | nil =>
        refine ⟨fun _ hfound => (by cases hfound), fun _ _ _ hlink => (by cases hlink), ?_⟩
        intro dir last hvacant
        obtain ⟨rfl, rfl⟩ := Halt.vacant.inj hvacant
        refine ⟨hturn, rfl, ?_⟩
        intro there hmove
        rw [hmove]
        exact advance_nil ..
    | barred cause =>
      exact ⟨fun _ hfound => (by cases hfound), fun _ _ _ hlink => (by cases hlink),
        fun _ _ hvacant => (by cases hvacant)⟩

/-- A walk comes to the same end on the other disk, and to what it misses as soon as it is there. -/
theorem Leads.chase (h : d'.Leads d) (followLast : Bool) (links : Nat) (place : Place)
    (names : List Name) (slash : Bool) :
    (∀ there s, d.chase followLast links place names slash = .found there s →
      d'.chase followLast links place names slash = .found there s) ∧
    ∀ dir last s, d.chase followLast links place names slash = .vacant dir last s →
      d.turn dir last = .missing ∧ ∀ there, d'.turn dir last = .move there →
        d'.chase followLast links place names slash = .found there s := by
  induction links using Nat.strongRecOn generalizing place names slash with
  | _ links ih =>
    obtain ⟨hfound, hlink, hvacant⟩ := h.advance (followLast || slash) place names
    rw [chase.eq_def, chase.eq_def]
    cases hadvance : d.advance (followLast || slash) place names with
    | found there =>
      rw [hfound there hadvance]
      exact ⟨fun _ _ heq => heq, fun _ _ _ heq => (by cases heq)⟩
    | vacant dir last =>
      obtain ⟨hmissing, -, hthere⟩ := hvacant dir last hadvance
      refine ⟨fun _ _ heq => (by cases heq), ?_⟩
      intro dir' last' s heq
      obtain ⟨rfl, rfl, rfl⟩ := Goal.vacant.inj heq
      refine ⟨hmissing, ?_⟩
      intro there hmove
      rw [hthere there hmove]
    | blocked cause => exact ⟨fun _ _ heq => (by cases heq), fun _ _ _ heq => (by cases heq)⟩
    | link dir target rest =>
      rw [hlink dir target rest hadvance]
      cases links with
      | zero => exact ⟨fun _ _ heq => (by cases heq), fun _ _ _ heq => (by cases heq)⟩
      | succ links => exact ih links (Nat.lt_succ_self links) ..

/-! ### Slashes at the end -/

/-- A slash that a walk has met is kept to its end. -/
theorem chase_met_slash (d : Disk) (followLast : Bool) (links : Nat) (place : Place)
    (names : List Name) :
    (∀ there s, d.chase followLast links place names true = .found there s → s = true) ∧
    ∀ dir last s, d.chase followLast links place names true = .vacant dir last s → s = true := by
  induction links using Nat.strongRecOn generalizing place names with
  | _ links ih =>
    rw [chase.eq_def]
    cases d.advance (followLast || true) place names with
    | found there => simp
    | vacant dir last => simp
    | blocked cause => simp
    | link dir target rest =>
      cases links with
      | zero => simp
      | succ links => exact ih links (Nat.lt_succ_self links) ..

/-- A walk that follows a last link anyway comes to the same place with a slash at the end and
without. -/
theorem chase_any_slash (h : d.chase true links place names slash = .found there s) (slash' : Bool) :
    ∃ s', d.chase true links place names slash' = .found there s' := by
  induction links using Nat.strongRecOn generalizing place names slash slash' with
  | _ links ih =>
    rw [chase.eq_def, Bool.true_or] at h ⊢
    cases hadvance : d.advance true place names with
    | found there' =>
      rw [hadvance] at h
      obtain ⟨rfl, -⟩ := Goal.found.inj h
      exact ⟨slash', rfl⟩
    | vacant dir last => rw [hadvance] at h; cases h
    | blocked cause => rw [hadvance] at h; cases h
    | link dir target rest =>
      rw [hadvance] at h
      cases links with
      | zero => cases h
      | succ links => exact ih links (Nat.lt_succ_self links) h ..

/-! ### Where a file is to be written -/

theorem approach_eq (d : Disk) (links : Nat) (place : Place) (names : List Name) :
    d.approach links place names false =
      match d.advance true place names with
      | .found there => .found there false
      | .vacant dir name => .vacant dir name false
      | .blocked cause => .blocked cause
      | .link dir target rest =>
        match links with
        | 0 => .blocked .tooManyLinks
        | links + 1 =>
          d.approach links (origin target dir) (target.steps ++ rest)
            (rest.isEmpty && target.endsInSlash) :=
  (approach.eq_def ..).trans (if_neg Bool.false_ne_true)

theorem approach_slash (d : Disk) (links : Nat) (place : Place) (names : List Name) :
    ∃ cause, d.approach links place names true = .blocked cause := by
  cases links <;> (rw [Disk.approach, if_pos rfl]; exact ⟨_, rfl⟩)

/-- The walk to where a file is to be written ends as any walk does that meets no slash at the end. -/
theorem approach_iff (d : Disk) (links : Nat) (place : Place) (names : List Name) (slash : Bool) :
    (∀ there s, d.approach links place names slash = .found there s ↔
      s = false ∧ d.chase true links place names slash = .found there false) ∧
    ∀ dir last s, d.approach links place names slash = .vacant dir last s ↔
      s = false ∧ d.chase true links place names slash = .vacant dir last false := by
  induction links using Nat.strongRecOn generalizing place names slash with
  | _ links ih =>
    cases slash with
    | true =>
      obtain ⟨cause, hblocked⟩ := d.approach_slash links place names
      obtain ⟨hfound, hvacant⟩ := d.chase_met_slash true links place names
      rw [hblocked]
      constructor
      · intro there s
        refine iff_of_false (by simp) ?_
        rintro ⟨-, heq⟩
        cases hfound there false heq
      · intro dir last s
        refine iff_of_false (by simp) ?_
        rintro ⟨-, heq⟩
        cases hvacant dir last false heq
    | false =>
      rw [approach_eq, chase.eq_def, Bool.true_or]
      cases d.advance true place names with
      | found there => grind
      | vacant dir last => grind
      | blocked cause => simp
      | link dir target rest =>
        cases links with
        | zero => simp
        | succ links =>
          have hrest := ih links (Nat.lt_succ_self links) (origin target dir)
            (target.steps ++ rest) (rest.isEmpty && target.endsInSlash)
          simpa only [Bool.false_or] using hrest

/-- Where a file is to be written on one disk, there it is to be written on the other. -/
theorem Leads.approach (h : d'.Leads d) (links : Nat) (place : Place) (names : List Name)
    (slash : Bool) :
    (∀ there s, d.approach links place names slash = .found there s →
      d'.approach links place names slash = .found there s) ∧
    ∀ dir last s, d.approach links place names slash = .vacant dir last s →
      d.turn dir last = .missing ∧ ∀ there, d'.turn dir last = .move there →
        d'.approach links place names slash = .found there s := by
  obtain ⟨hfound, hvacant⟩ := h.chase true links place names slash
  obtain ⟨hfoundIff, hvacantIff⟩ := d.approach_iff links place names slash
  obtain ⟨hfoundIff', -⟩ := d'.approach_iff links place names slash
  constructor
  · intro there s heq
    obtain ⟨hs, hchase⟩ := (hfoundIff there s).1 heq
    exact (hfoundIff' there s).2 ⟨hs, hfound there false hchase⟩
  · intro dir last s heq
    obtain ⟨hs, hchase⟩ := (hvacantIff dir last s).1 heq
    obtain ⟨hmissing, hthere⟩ := hvacant dir last false hchase
    refine ⟨hmissing, ?_⟩
    intro there hmove
    exact (hfoundIff' there s).2 ⟨hs, hthere there hmove⟩

end Disk

end SourceBundle
