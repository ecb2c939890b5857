import SourceBundle.Disk.Canonical
import SourceBundle.Proofs.Disk.Lookup

/-!
Canonical paths. The trail that is built name by name leads where the path itself leads: at each
step the builder and the walk stand at the same place, and where the names to come demand a
directory the builder has made sure of one. A canonical path names no link, so what is below it is
looked up with all the links that the system allows.
-/

namespace SourceBundle

namespace Path

variable {trail : List Name}

/-- The absolute path through names grows from the root name by name. -/
theorem ofTrail_eq_joinAll (h : ∀ name ∈ trail, Name.Valid name) :
    ofTrail trail = (⟨[Bytes.slash]⟩ : Path).joinAll trail := by
  cases trail with
  | nil => rfl
  | cons name rest =>
    obtain ⟨hname, hrest⟩ := List.forall_mem_cons.1 h
    have hbytes : (ofTrail (name :: rest)).bytes =
        ((⟨[Bytes.slash]⟩ : Path).joinAll (name :: rest)).bytes := by
      rw [joinAll_cons, bytes_joinAll (isEmpty_join hname) (endsInSlash_join hname) hrest, bytes_join]
      rfl
    exact congrArg Path.mk hbytes

theorem ofTrail_append {names : List Name} (h : ∀ name ∈ trail ++ names, Name.Valid name) :
    ofTrail (trail ++ names) = (ofTrail trail).joinAll names := by
  rw [ofTrail_eq_joinAll h, joinAll_append,
    ← ofTrail_eq_joinAll fun name hname => h name (List.mem_append_left names hname)]

theorem isAbsolute_ofTrail (h : ∀ name ∈ trail, Name.Valid name) :
    (ofTrail trail).isAbsolute = true := by
  rw [ofTrail_eq_joinAll h, isAbsolute_joinAll _ h]
  rfl

theorem steps_ofTrail (h : ∀ name ∈ trail, Name.Valid name) : (ofTrail trail).steps = trail := by
  rw [ofTrail_eq_joinAll h, steps_joinAll _ h]
  rfl

/-- The absolute path through names starts from the root, wherever it is read. -/
theorem origin_ofTrail (h : ∀ name ∈ trail, Name.Valid name) (base : Place) :
    Disk.origin (ofTrail trail) base = .named [] := by
  rw [Disk.origin, isAbsolute_ofTrail h]
  rfl

end Path

namespace Disk

variable {d : Disk} {trail found names rest : List Name} {name : Name} {slash : Bool} {node : Node}
  {entries : Listing}

/-! ### Demands -/

theorem demandsDirectory_cons (h : name ≠ Bytes.dot) :
    demandsDirectory (name :: rest) slash = decide (name = Bytes.dotDot) := by
  simp [demandsDirectory, h]

/-- A dot passes on what is demanded, and by itself demands a directory. -/
theorem demandsDirectory_dot (h : demandsDirectory (Bytes.dot :: rest) slash = false) :
    rest ≠ [] ∧ demandsDirectory rest slash = false := by
  simp only [demandsDirectory, List.dropWhile_cons, decide_true, if_true] at h ⊢
  cases hrest : rest.dropWhile (· = Bytes.dot) with
  | nil => simp [hrest] at h
  | cons name names =>
    rw [hrest] at h
    refine ⟨?_, h⟩
    rintro rfl
    cases hrest

/-! ### One name -/

theorem entry_eq_ok (h : d.entry trail name = .ok node) :
    ∃ entries, d.node? (.named trail) = some (.directory entries) ∧ name.length ≤ maxName ∧
      Listing.find? entries name = some node := by
  unfold entry at h
  split at h
  · cases h
  split at h
  · next entries hnode =>
    split at h
    · cases h
    · next hlength =>
      split at h
      · next child hfind =>
        obtain ⟨rfl⟩ := h
        exact ⟨entries, hnode, Nat.not_lt.1 hlength, hfind⟩
      · cases h
  · cases h

/-- What the builder finds under a name is what a walk goes on from. -/
theorem turn_of_entry (hdot : name ≠ Bytes.dot) (hdotDot : name ≠ Bytes.dotDot)
    (h : d.entry trail name = .ok node) :
    d.turn (.named trail) name =
      match node with
      | .link target => .link target
      | _ => .move (.named (trail ++ [name])) := by
  obtain ⟨entries, hnode, hlength, hfind⟩ := entry_eq_ok h
  simp only [turn, hnode, hdot, hdotDot, Nat.not_lt.2 hlength, hfind, if_false]
  cases node <;> rfl

theorem turn_dot (h : d.node? (.named trail) = some (.directory entries)) :
    d.turn (.named trail) Bytes.dot = .move (.named trail) := by
  simp [turn, h]

theorem turn_dotDot (h : d.node? (.named trail) = some (.directory entries)) :
    d.turn (.named trail) Bytes.dotDot = .move (.named trail.dropLast) := by
  simp [turn, h, Bytes.dotDot, Bytes.dot, Place.parent]

/-- Above a directory stands a directory. -/
theorem directory_dropLast (h : d.node? (.named trail) = some (.directory entries)) :
    ∃ above, d.node? (.named trail.dropLast) = some (.directory above) := by
  rcases List.eq_nil_or_concat' trail with rfl | ⟨front, last, rfl⟩
  · exact ⟨entries, h⟩
  · obtain ⟨above, habove, -⟩ := Node.at?_concat_eq_some h
    rw [List.dropLast_concat]
    exact ⟨above, habove⟩

/-! ### Straight stretches -/

/-- What is known of a place while a canonical trail is built: something other than a link stands
there, and a directory if the names to come demand one. -/
structure Sound (d : Disk) (trail names : List Name) (slash : Bool) : Prop where
  standing : ∃ node, d.node? (.named trail) = some node ∧ ∀ target, node ≠ .link target
  directory : demandsDirectory names slash = true →
    ∃ entries, d.node? (.named trail) = some (.directory entries)

theorem Sound.of_directory (h : d.node? (.named trail) = some (.directory entries)) :
    d.Sound trail names slash :=
  ⟨⟨.directory entries, h, by simp⟩, fun _ => ⟨entries, h⟩⟩

/-- What is checked is a directory if the check lets it pass. -/
theorem isDirectory_of_check {found : Node} (h : checkDirectory trail (.ok node) = .ok found) :
    node.isDirectory = true := by
  unfold checkDirectory at h
  split at h
  · cases h
  simp only at h
  split at h
  · next hdir => exact hdir
  · cases h

theorem checkDirectory_error (trail : List Name) (cause : Errno) :
    ∃ cause', checkDirectory trail (.error cause) = .error cause' := by
  unfold checkDirectory
  split
  · exact ⟨_, rfl⟩
  · exact ⟨_, rfl⟩

/-- Under a name that is no link the builder goes on if what is found there is what is demanded. -/
theorem straighten_cons (hdot : name ≠ Bytes.dot) (hdotDot : name ≠ Bytes.dotDot)
    (hlink : ∀ target, d.entry trail name ≠ .ok (.link target)) :
    d.straighten slash trail (name :: rest) =
      match if demandsDirectory rest slash then checkDirectory (trail ++ [name]) (d.entry trail name)
        else d.entry trail name with
      | .error cause => .blocked cause
      | .ok _ => d.straighten slash (trail ++ [name]) rest := by
  rw [straighten, if_neg hdot, if_neg hdotDot]
  split
  · next target hentry => exact absurd hentry (hlink target)
  · rfl

/-- A name that leads nowhere stops the builder. -/
theorem straighten_error {cause : Errno} (hdot : name ≠ Bytes.dot) (hdotDot : name ≠ Bytes.dotDot)
    (h : d.entry trail name = .error cause) :
    ∃ cause, d.straighten slash trail (name :: rest) = .blocked cause := by
  rw [straighten_cons hdot hdotDot (by simp [h]), h]
  cases demandsDirectory rest slash with
  | false => exact ⟨cause, rfl⟩
  | true =>
    obtain ⟨cause', hcheck⟩ := checkDirectory_error (trail ++ [name]) cause
    rw [if_pos rfl, hcheck]
    exact ⟨cause', rfl⟩

/-- Under a name that is no link the builder stops, or it goes on and has made sure of what is
demanded. -/
theorem straighten_ok (hdot : name ≠ Bytes.dot) (hdotDot : name ≠ Bytes.dotDot)
    (h : d.entry trail name = .ok node) (hlink : ∀ target, node ≠ .link target) :
    (∃ cause, d.straighten slash trail (name :: rest) = .blocked cause) ∨
      d.straighten slash trail (name :: rest) = d.straighten slash (trail ++ [name]) rest ∧
        d.Sound (trail ++ [name]) rest slash := by
  obtain ⟨entries, hnode, -, hfind⟩ := entry_eq_ok h
  have hstands : d.node? (.named (trail ++ [name])) = some node := by
    rw [node?_listed hnode, hfind]
  have hnotLink : ∀ target, d.entry trail name ≠ .ok (.link target) := by
    intro target hentry
    rw [h] at hentry
    exact hlink target (Except.ok.inj hentry)
  rw [straighten_cons hdot hdotDot hnotLink, h]
  cases hdemand : demandsDirectory rest slash with
  | false => exact .inr ⟨rfl, ⟨node, hstands, hlink⟩, by simp [hdemand]⟩
  | true =>
    rw [if_pos rfl]
    cases hcheck : checkDirectory (trail ++ [name]) (.ok node) with
    | error cause => exact .inl ⟨cause, rfl⟩
    | ok found =>
      rw [Node.eq_directory (isDirectory_of_check hcheck)] at hstands
      exact .inr ⟨rfl, .of_directory hstands⟩

/-- The builder goes on only from a directory. -/
theorem directory_of_straighten (h : d.Sound trail names slash) (hne : names ≠ [])
    (hok : ∀ cause, d.straighten slash trail names ≠ .blocked cause) :
    ∃ entries, d.node? (.named trail) = some (.directory entries) := by
  cases hdemand : demandsDirectory names slash with
  | true => exact h.directory hdemand
  | false =>
    clear h
    induction names with
    | nil => exact absurd rfl hne
    | cons name rest ih =>
      by_cases hdot : name = Bytes.dot
      · subst hdot
        obtain ⟨hrest, hdemand⟩ := demandsDirectory_dot hdemand
        rw [straighten, if_pos rfl] at hok
        exact ih hrest hok hdemand
      · rw [demandsDirectory_cons hdot, decide_eq_false_iff_not] at hdemand
        cases hentry : d.entry trail name with
        | error cause =>
          obtain ⟨cause', hblocked⟩ := straighten_error hdot hdemand hentry
          exact absurd hblocked (hok cause')
        | ok node =>
          obtain ⟨entries, hnode, -⟩ := entry_eq_ok hentry
          exact ⟨entries, hnode⟩

/-- The builder goes with the walk: it builds the trail that the walk finds, and stops at a link
where the walk does. -/
theorem advance_of_straighten (h : d.Sound trail names slash) :
    (∀ found, d.straighten slash trail names = .whole found →
      d.advance true (.named trail) names = .found (.named found) ∧ d.Sound found [] slash) ∧
    ∀ found target left, d.straighten slash trail names = .bent found target left →
      d.advance true (.named trail) names = .link (.named found) target left ∧
        ∃ entries, d.node? (.named found) = some (.directory entries) := by
  induction names generalizing trail with
  | nil =>
    constructor
    · intro found hwhole
      rw [straighten] at hwhole
      obtain ⟨rfl⟩ := hwhole
      exact ⟨advance_nil .., h⟩
    · intro found target left hbent
      rw [straighten] at hbent
      cases hbent
  | cons name rest ih =>
    by_cases hblocked : ∃ cause, d.straighten slash trail (name :: rest) = .blocked cause
    · obtain ⟨cause, hcause⟩ := hblocked
      rw [hcause]
      exact ⟨fun _ h => (by cases h), fun _ _ _ h => (by cases h)⟩
    have hok : ∀ cause, d.straighten slash trail (name :: rest) ≠ .blocked cause := by
      intro cause hcause
      exact hblocked ⟨cause, hcause⟩
    obtain ⟨entries, hdir⟩ := directory_of_straighten h (List.cons_ne_nil _ _) hok
    by_cases hdot : name = Bytes.dot
    · subst hdot
      have hrest := ih (.of_directory hdir)
      rw [straighten, if_pos rfl]
      simpa only [advance_cons, turn_dot hdir] using hrest
    by_cases hdotDot : name = Bytes.dotDot
    · subst hdotDot
      obtain ⟨above, habove⟩ := directory_dropLast hdir
      have hrest := ih (.of_directory habove)
      rw [straighten, if_neg hdot, if_pos rfl]
      simpa only [advance_cons, turn_dotDot hdir] using hrest
    cases hentry : d.entry trail name with
    | error cause => exact absurd (straighten_error hdot hdotDot hentry) hblocked
    | ok node =>
      have hturn := turn_of_entry hdot hdotDot hentry
      by_cases hlink : ∃ target, node = .link target
      · obtain ⟨target, rfl⟩ := hlink
        have hbent : d.straighten slash trail (name :: rest) = .bent trail target rest := by
          rw [straighten, if_neg hdot, if_neg hdotDot, hentry]
        rw [hbent, advance_cons, hturn]
        constructor
        · intro found hwhole
          cases hwhole
        · intro found target left heq
          cases heq
          exact ⟨by simp, entries, hdir⟩
      · have hmove : d.turn (.named trail) name = .move (.named (trail ++ [name])) := by
          rw [hturn]
          cases node with
          | link target => exact absurd ⟨target, rfl⟩ hlink
          | _ => rfl
        have hnotLink : ∀ target, node ≠ .link target := by
          intro target htarget
          exact hlink ⟨target, htarget⟩
        rcases straighten_ok hdot hdotDot hentry hnotLink with hcause | ⟨hsame, hsound⟩
        · exact absurd hcause hblocked
        · rw [hsame]
          simpa only [advance_cons, hmove] using ih hsound

/-! ### Links on the way -/

/-- The trail that is built is the one that the walk finds. -/
theorem chase_of_resolve {links : Nat} (h : d.Sound trail names slash)
    (hok : d.resolve links trail names slash = .ok found) :
    ∃ slash', d.chase true links (.named trail) names slash = .found (.named found) slash' ∧
      d.Sound found [] slash' := by
  induction links using Nat.strongRecOn generalizing trail names slash with
  | _ links ih =>
    rw [resolve] at hok
    rw [chase.eq_def, Bool.true_or]
    cases hstretch : d.straighten slash trail names with
    | blocked cause => simp [hstretch] at hok
    | whole there =>
      obtain ⟨hadvance, hsound⟩ := (advance_of_straighten h).1 there hstretch
      rw [hstretch] at hok
      obtain ⟨rfl⟩ := hok
      exact ⟨slash, by rw [hadvance], hsound⟩
    | bent there target rest =>
      obtain ⟨hadvance, entries, hdir⟩ := (advance_of_straighten h).2 there target rest hstretch
      rw [hstretch] at hok
      rw [hadvance]
      cases links with
      | zero => cases hok
      | succ links =>
        have horigin : origin target (.named there) =
            .named (if target.isAbsolute then [] else there) := by
          unfold origin
          split <;> rfl
        have hsound : d.Sound (if target.isAbsolute then [] else there) (target.steps ++ rest)
            (slash || (rest.isEmpty && target.endsInSlash)) := by
          have hroot : d.node? (.named []) = some (.directory d.entries) := rfl
          split
          · exact .of_directory hroot
          · exact .of_directory hdir
        simp only [horigin]
        exact ih links (Nat.lt_succ_self links) hsound hok

end Disk

namespace World

variable {w : World} {p r : Path} {entries : Listing} {place : Place} {names : List Name}

/-- A world as it can be: a sound disk, and a current directory that is one. -/
structure Valid (w : World) : Prop where
  disk : w.disk.Valid
  cwd : ∃ entries, w.disk.node? w.cwd = some (.directory entries)

/-- The canonical form of a path leads through names alone to where the path itself leads. -/
theorem canonical_eq_ok (hw : w.Valid) (h : w.canonical p = .ok r) :
    ∃ trail node slash, r = .ofTrail trail ∧ w.locate true p = .found (.named trail) slash ∧
      w.disk.node? (.named trail) = some node ∧ (∀ target, node ≠ .link target) ∧
      (slash = true → node.isDirectory = true) ∧ (0 : UInt8) ∉ p.bytes ∧ p.isEmpty = false := by
  unfold canonical at h
  split at h
  · cases h
  next hnul =>
  split at h
  · cases h
  next hempty =>
  split at h
  · cases h
  next start horigin =>
  split at h
  · cases h
  next trail hresolve =>
  obtain ⟨rfl⟩ := h
  obtain ⟨entries, hstart⟩ : ∃ entries, w.disk.node? (.named start) = some (.directory entries) := by
    rw [← horigin]
    unfold Disk.origin
    split
    · exact ⟨w.disk.entries, rfl⟩
    · exact hw.cwd
  obtain ⟨slash, hchase, hsound⟩ := Disk.chase_of_resolve (.of_directory hstart) hresolve
  obtain ⟨node, hnode, hlink⟩ := hsound.standing
  refine ⟨trail, node, slash, rfl, ?_, hnode, hlink, ?_, by simpa using hnul,
    by simpa using hempty⟩
  · rw [locate, horigin]
    exact hchase
  · intro hslash
    obtain ⟨entries, hdir⟩ := hsound.directory (by simpa [Disk.demandsDirectory] using hslash)
    rw [hnode] at hdir
    obtain ⟨rfl⟩ := hdir
    rfl

/-! ### Below a canonical path -/

/-- From the root, names that lead to no link are walked at once. -/
theorem chase_root (hdisk : w.disk.Valid) {trail : List Name} {node : Node}
    (hnode : w.disk.node? (.named trail) = some node) (hlink : ∀ target, node ≠ .link target)
    (followLast : Bool) (links : Nat) (rest : List Name) (slash : Bool) :
    w.disk.chase followLast links (.named []) (trail ++ rest) slash =
      w.disk.chase followLast links (.named trail) rest slash := by
  have htop : w.disk.node? (.named []) = some w.disk.root := rfl
  have hbelow := Disk.chase_below htop hdisk hnode hlink followLast links rest slash
  rwa [Place.below_named, List.nil_append] at hbelow

/-- A path and its canonical form lead to the same directory, unless the path is too long. -/
theorem follow_canonical (hw : w.Valid) (h : w.canonical p = .ok r)
    (hdir : w.isDirectory r = true) :
    ∃ trail entries, r = .ofTrail trail ∧ w.follow r = .ok (.named trail, .directory entries) ∧
      (p.bytes.length < maxPath → w.follow p = .ok (.named trail, .directory entries)) := by
  obtain ⟨trail, node, slash, rfl, hlocate, hnode, hlink, hslash, hnul, hempty⟩ :=
    canonical_eq_ok hw h
  obtain ⟨place, entries, hfollow⟩ := isDirectory_iff.1 hdir
  have hplace : place = .named trail := by
    obtain ⟨-, slash', hr, -⟩ := follow_eq_ok_iff.1 hfollow
    have htrail : ∀ name ∈ trail, Name.Valid name := Node.Valid.names hw.disk hnode
    have horigin := Path.origin_ofTrail htrail w.cwd
    have hroot := chase_root hw.disk hnode hlink true maxLinks [] (Path.ofTrail trail).endsInSlash
    rw [List.append_nil, Disk.chase.eq_def w.disk true maxLinks (.named trail)] at hroot
    rw [locate, horigin, Path.steps_ofTrail htrail, hroot] at hr
    simp only [Disk.advance_nil] at hr
    cases hr
    rfl
  subst hplace
  obtain ⟨-, -, -, hstands, -⟩ := follow_eq_ok_iff.1 hfollow
  refine ⟨trail, entries, rfl, hfollow, ?_⟩
  intro hshort
  refine follow_eq_ok_iff.2 ⟨?_, slash, hlocate, hstands, fun _ => rfl⟩
  exact refusal?_eq_none_iff.2 ⟨hnul, hempty, hshort⟩

end World

end SourceBundle
