import SourceBundle.Project
import SourceBundle.Proofs.Disk.Canonical

/-!
When a path has a canonical form that is of use. Where the walk finds a directory, the builder of the
canonical trail finds the same one, unless a path that it has to ask for is too long for the system:
nothing else can stop it, for all that it demands on its way is a directory too. So a path resolves to
a directory exactly when it leads to one and no length is in the way.
-/

namespace SourceBundle

namespace Path

/-- The absolute path through some names is no longer than the one through more. -/
theorem length_ofTrail_le (trail rest : List Name) :
    (ofTrail trail).bytes.length ≤ (ofTrail (trail ++ rest)).bytes.length := by
  cases trail with
  | nil => cases rest <;> simp [ofTrail]
  | cons name trail => simp [ofTrail]

end Path

namespace Disk

variable {d : Disk} {place there : Place} {trail names rest : List Name} {name : Name}
  {slash s : Bool} {target : Path} {node : Node} {entries : Listing}

/-! ### One name -/

/-- Past anything but a directory no walk goes. -/
theorem directory_of_turn
    (h : (∃ there, d.turn place name = .move there) ∨ ∃ target, d.turn place name = .link target) :
    ∃ entries, d.node? place = some (.directory entries) := by
  unfold turn at h
  split at h
  · next entries hnode => exact ⟨entries, hnode⟩
  · simp at h

/-- How a walk goes on from a directory under a name that is not made of dots. -/
theorem turn_of_directory (hdot : name ≠ Bytes.dot) (hdotDot : name ≠ Bytes.dotDot)
    (hnode : d.node? (.named trail) = some (.directory entries)) :
    d.turn (.named trail) name =
      if maxName < name.length then .barred .nameTooLong
      else
        match Listing.find? entries name with
        | none => .missing
        | some (.link target) => .link target
        | some _ => .move (.named (trail ++ [name])) := by
  simp only [turn, hnode, if_neg hdot, if_neg hdotDot]
  rfl

/-- What the system answers when it is asked by its absolute path for what stands at `trail`. -/
def answer (trail : List Name) (node : Node) : Except Errno Node :=
  if maxPath ≤ (Path.ofTrail trail).bytes.length then .error .nameTooLong else .ok node

/-- What a directory lists the builder finds, unless its path is too long. -/
theorem entry_of_find? (hnode : d.node? (.named trail) = some (.directory entries))
    (hlength : ¬ maxName < name.length) (hfind : Listing.find? entries name = some node) :
    d.entry trail name = answer (trail ++ [name]) node := by
  unfold entry answer
  split
  · rfl
  · rw [hnode]
    simp only [hfind]

/-- A walk that moves on under a name comes to the entry that the builder finds. -/
theorem entry_of_move (hdot : name ≠ Bytes.dot) (hdotDot : name ≠ Bytes.dotDot)
    (h : d.turn (.named trail) name = .move there) :
    there = .named (trail ++ [name]) ∧ ∃ node, d.node? (.named (trail ++ [name])) = some node ∧
      d.entry trail name = answer (trail ++ [name]) node := by
  obtain ⟨entries, hnode⟩ := directory_of_turn (.inl ⟨there, h⟩)
  rw [turn_of_directory hdot hdotDot hnode] at h
  split at h
  · cases h
  next hlength =>
  cases hfind : Listing.find? entries name with
  | none => rw [hfind] at h; cases h
  | some node =>
    refine ⟨?_, node, (node?_listed hnode name).trans hfind, entry_of_find? hnode hlength hfind⟩
    rw [hfind] at h
    cases node <;> first | exact (Turn.move.inj h).symm | cases h

/-- A walk that is led on by a link comes to the link that the builder finds. -/
theorem entry_of_link (hdot : name ≠ Bytes.dot) (hdotDot : name ≠ Bytes.dotDot)
    (h : d.turn (.named trail) name = .link target) :
    d.node? (.named (trail ++ [name])) = some (.link target) ∧
      d.entry trail name = answer (trail ++ [name]) (.link target) := by
  obtain ⟨entries, hnode⟩ := directory_of_turn (.inr ⟨target, h⟩)
  rw [turn_of_directory hdot hdotDot hnode] at h
  split at h
  · cases h
  next hlength =>
  have hfind : Listing.find? entries name = some (.link target) := by
    cases hfind : Listing.find? entries name with
    | none => rw [hfind] at h; cases h
    | some node =>
      rw [hfind] at h
      cases node <;> first | (obtain ⟨rfl⟩ := h; rfl) | cases h
  exact ⟨(node?_listed hnode name).trans hfind, entry_of_find? hnode hlength hfind⟩

/-! ### The paths asked for -/

/-- The paths by which an entry is asked for: its absolute path, and where a directory is demanded the
same once more with a slash after it. -/
def askedAt (trail : List Name) (demanded : Bool) : List Path :=
  .ofTrail trail :: if demanded then [⟨(Path.ofTrail trail).bytes ++ [Bytes.slash]⟩] else []

/-- The paths that are asked for on a straight stretch of the way to a canonical form: each entry on it
by its own, and of the link that ends it no more than that it is there. -/
def askedStraight (d : Disk) (slash : Bool) : List Name → List Name → List Path
  | _, [] => []
  | trail, name :: rest =>
    if name = Bytes.dot then askedStraight d slash trail rest
    else if name = Bytes.dotDot then askedStraight d slash trail.dropLast rest
    else
      match d.node? (.named (trail ++ [name])) with
      | some (.link _) => askedAt (trail ++ [name]) false
      | _ =>
        askedAt (trail ++ [name]) (demandsDirectory rest slash) ++
          askedStraight d slash (trail ++ [name]) rest

/-- The paths that are asked for on the whole way, from link to link as the walk goes. -/
def asked (d : Disk) (links : Nat) (trail names : List Name) (slash : Bool) : List Path :=
  d.askedStraight slash trail names ++
    match links, d.advance true (.named trail) names with
    | links + 1, .link (.named there) target rest =>
      asked d links (if target.isAbsolute then [] else there) (target.steps ++ rest)
        (slash || (rest.isEmpty && target.endsInSlash))
    | _, _ => []

/-- Whether the absolute path of something on the disk, with a slash after it, is too long for the
system. -/
def TooDeep (d : Disk) : Prop :=
  ∃ trail node, d.node? (.named trail) = some node ∧
    maxPath ≤ (Path.ofTrail trail).bytes.length + 1

/-- Whether one of the paths is too long for the system, which takes a disk that is too deep. -/
def Overlong (d : Disk) (paths : List Path) : Prop :=
  d.TooDeep ∧ ∃ q ∈ paths, maxPath ≤ q.bytes.length

theorem Overlong.mono {paths more : List Path} (h : d.Overlong paths)
    (hsubset : ∀ q ∈ paths, q ∈ more) : d.Overlong more := by
  obtain ⟨hdeep, q, hq, hlong⟩ := h
  exact ⟨hdeep, q, hsubset q hq, hlong⟩

/-- A path that is too long stops the builder, whatever is demanded. -/
theorem straighten_too_long (hdot : name ≠ Bytes.dot) (hdotDot : name ≠ Bytes.dotDot)
    (hnode : d.node? (.named (trail ++ [name])) = some node)
    (hentry : d.entry trail name = answer (trail ++ [name]) node)
    (hlong : maxPath ≤ (Path.ofTrail (trail ++ [name])).bytes.length) (demanded : Bool) :
    d.Overlong (askedAt (trail ++ [name]) demanded) ∧
      d.straighten slash trail (name :: rest) = .blocked .nameTooLong := by
  refine ⟨⟨⟨_, _, hnode, Nat.le_succ_of_le hlong⟩, _, List.mem_cons_self .., hlong⟩, ?_⟩
  have hcheck : ∀ trail, checkDirectory trail (.error .nameTooLong) = .error .nameTooLong := by
    intro trail
    unfold checkDirectory
    split <;> rfl
  rw [answer, if_pos hlong] at hentry
  rw [straighten_cons hdot hdotDot (by simp [hentry]), hentry, hcheck]
  cases demandsDirectory rest slash <;> rfl

/-- The builder goes on to a directory, unless a path by which it asks for it is too long. -/
theorem straighten_directory (hdot : name ≠ Bytes.dot) (hdotDot : name ≠ Bytes.dotDot)
    (hnode : d.node? (.named (trail ++ [name])) = some (.directory entries))
    (hentry : d.entry trail name = answer (trail ++ [name]) (.directory entries)) :
    (∀ q ∈ askedAt (trail ++ [name]) (demandsDirectory rest slash), q.bytes.length < maxPath) ∧
        d.straighten slash trail (name :: rest) = d.straighten slash (trail ++ [name]) rest ∨
      d.Overlong (askedAt (trail ++ [name]) (demandsDirectory rest slash)) ∧
        d.straighten slash trail (name :: rest) = .blocked .nameTooLong := by
  by_cases hlong : maxPath ≤ (Path.ofTrail (trail ++ [name])).bytes.length
  · exact .inr (straighten_too_long hdot hdotDot hnode hentry hlong _)
  rw [answer, if_neg hlong] at hentry
  rw [straighten_cons hdot hdotDot (by simp [hentry]), hentry]
  cases hdemand : demandsDirectory rest slash with
  | false => exact .inl ⟨by simpa [askedAt] using Nat.not_le.1 hlong, rfl⟩
  | true =>
    rw [if_pos rfl, checkDirectory]
    by_cases hslash : maxPath ≤ (Path.ofTrail (trail ++ [name])).bytes.length + 1
    · rw [if_pos hslash]
      exact .inr ⟨⟨⟨_, _, hnode, hslash⟩, _, List.mem_cons_of_mem _ (List.mem_cons_self ..),
        by simpa using hslash⟩, rfl⟩
    · rw [if_neg hslash]
      exact .inl ⟨by simpa [askedAt] using ⟨Nat.not_le.1 hlong, Nat.not_le.1 hslash⟩, rfl⟩

/-- The builder comes to a link, unless its path is too long. -/
theorem straighten_link (hdot : name ≠ Bytes.dot) (hdotDot : name ≠ Bytes.dotDot)
    (hnode : d.node? (.named (trail ++ [name])) = some (.link target))
    (hentry : d.entry trail name = answer (trail ++ [name]) (.link target)) :
    (∀ q ∈ askedAt (trail ++ [name]) false, q.bytes.length < maxPath) ∧
        d.straighten slash trail (name :: rest) = .bent trail target rest ∨
      d.Overlong (askedAt (trail ++ [name]) false) ∧
        d.straighten slash trail (name :: rest) = .blocked .nameTooLong := by
  by_cases hlong : maxPath ≤ (Path.ofTrail (trail ++ [name])).bytes.length
  · exact .inr (straighten_too_long hdot hdotDot hnode hentry hlong false)
  · rw [answer, if_neg hlong] at hentry
    refine .inl ⟨by simpa [askedAt] using Nat.not_le.1 hlong, ?_⟩
    rw [straighten, if_neg hdot, if_neg hdotDot, hentry]

/-! ### Straight stretches -/

/-- Whether a straight walk stops at a link or ends at a directory. -/
def Halt.Passes (d : Disk) : Halt → Prop
  | .found there => ∃ entries, d.node? there = some (.directory entries)
  | .link _ _ _ => True
  | _ => False

/-- Whether a builder goes as far as a straight walk does. -/
inductive Stretch.Follows : Stretch → Halt → Prop
  | whole (trail : List Name) : Follows (.whole trail) (.found (.named trail))
  | bent (trail : List Name) (target : Path) (rest : List Name) :
      Follows (.bent trail target rest) (.link (.named trail) target rest)

/-- A walk that passes goes on under its first name. -/
theorem turn_of_passes (h : Halt.Passes d (d.advance true place (name :: rest))) :
    (∃ next, d.turn place name = .move next ∧
        d.advance true place (name :: rest) = d.advance true next rest) ∨
      ∃ target, d.turn place name = .link target ∧
        d.advance true place (name :: rest) = .link place target rest := by
  rw [advance_cons] at h ⊢
  cases hturn : d.turn place name with
  | move next => exact .inl ⟨next, rfl, rfl⟩
  | link target => exact .inr ⟨target, rfl, by simp⟩
  | missing =>
    rw [hturn] at h
    cases rest <;> exact h.elim
  | barred cause =>
    rw [hturn] at h
    exact h.elim

/-- Where a walk that passes sets out stands a directory. -/
theorem directory_of_passes (h : Halt.Passes d (d.advance true place names)) :
    ∃ entries, d.node? place = some (.directory entries) := by
  cases names with
  | nil => rwa [advance_nil] at h
  | cons name rest =>
    rcases turn_of_passes h with ⟨next, hturn, -⟩ | ⟨target, hturn, -⟩
    · exact directory_of_turn (.inl ⟨next, hturn⟩)
    · exact directory_of_turn (.inr ⟨target, hturn⟩)

/-- The builder goes with a straight walk that passes, unless a path that it asks for is too long. -/
theorem straighten_of_passes (slash : Bool)
    (h : Halt.Passes d (d.advance true (.named trail) names)) :
    (∀ q ∈ d.askedStraight slash trail names, q.bytes.length < maxPath) ∧
        (d.straighten slash trail names).Follows (d.advance true (.named trail) names) ∨
      d.Overlong (d.askedStraight slash trail names) ∧
        d.straighten slash trail names = .blocked .nameTooLong := by
  induction names generalizing trail with
  | nil =>
    rw [advance_nil, straighten, askedStraight]
    exact .inl ⟨by simp, .whole trail⟩
  | cons name rest ih =>
    obtain ⟨entries, hdirectory⟩ := directory_of_passes h
    by_cases hdot : name = Bytes.dot
    · subst hdot
      rw [advance_cons, turn_dot hdirectory] at h ⊢
      rw [straighten, if_pos rfl, askedStraight, if_pos rfl]
      exact ih h
    by_cases hdotDot : name = Bytes.dotDot
    · subst hdotDot
      rw [advance_cons, turn_dotDot hdirectory] at h ⊢
      rw [straighten, if_neg hdot, if_pos rfl, askedStraight, if_neg hdot, if_pos rfl]
      exact ih h
    rw [askedStraight, if_neg hdot, if_neg hdotDot]
    rcases turn_of_passes h with ⟨next, hturn, hnext⟩ | ⟨target, hturn, hlink⟩
    · obtain ⟨rfl, node, hnode, hentry⟩ := entry_of_move hdot hdotDot hturn
      rw [hnext] at h ⊢
      -- what is under the name is a directory, since the walk goes on from it or ends there
      obtain ⟨below, hbelow⟩ := directory_of_passes h
      obtain rfl : node = .directory below := by
        rw [hnode] at hbelow
        exact Option.some.inj hbelow
      rw [hnode]
      rcases straighten_directory hdot hdotDot hnode hentry with ⟨hshort, hsame⟩ | ⟨hlong, hblocked⟩
      · rw [hsame]
        rcases ih h with ⟨hrest, hfollows⟩ | ⟨hrest, hblocked⟩
        · exact .inl ⟨List.forall_mem_append.2 ⟨hshort, hrest⟩, hfollows⟩
        · exact .inr ⟨hrest.mono fun q hq => List.mem_append_right _ hq, hblocked⟩
      · exact .inr ⟨hlong.mono fun q hq => List.mem_append_left _ hq, hblocked⟩
    · obtain ⟨hnode, hentry⟩ := entry_of_link hdot hdotDot hturn
      rw [hlink, hnode]
      rcases straighten_link hdot hdotDot hnode hentry with ⟨hshort, hbent⟩ | hblocked
      · rw [hbent]
        exact .inl ⟨hshort, .bent trail target rest⟩
      · exact .inr hblocked

/-- The builder finds the directory that the walk finds, unless a path that it asks for is too long. -/
theorem resolve_of_chase {links : Nat}
    (h : d.chase true links (.named trail) names slash = .found there s)
    (hdirectory : d.node? there = some (.directory entries)) :
    (∀ q ∈ d.asked links trail names slash, q.bytes.length < maxPath) ∧
        (∃ found, there = .named found ∧ d.resolve links trail names slash = .ok found) ∨
      d.Overlong (d.asked links trail names slash) ∧
        d.resolve links trail names slash = .error .nameTooLong := by
  induction links using Nat.strongRecOn generalizing trail names slash with
  | _ links ih =>
    rw [chase.eq_def, Bool.true_or] at h
    have hpasses : Halt.Passes d (d.advance true (.named trail) names) := by
      cases hadvance : d.advance true (.named trail) names with
      | found there' =>
        rw [hadvance] at h
        obtain ⟨rfl, -⟩ := Goal.found.inj h
        exact ⟨entries, hdirectory⟩
      | vacant dir name => rw [hadvance] at h; cases h
      | blocked cause => rw [hadvance] at h; cases h
      | link dir target rest => trivial
    rw [resolve, asked.eq_def]
    rcases straighten_of_passes slash hpasses with ⟨hshort, hfollows⟩ | ⟨hlong, hblocked⟩
    · generalize d.straighten slash trail names = stretch at hfollows ⊢
      generalize d.advance true (.named trail) names = halt at h hfollows ⊢
      cases hfollows with
      | whole found =>
        obtain ⟨rfl, -⟩ := Goal.found.inj h
        exact .inl ⟨by simpa using hshort, found, rfl, rfl⟩
      | bent found target rest =>
        cases links with
        | zero => cases h
        | succ links =>
          have horigin : origin target (.named found) =
              .named (if target.isAbsolute then [] else found) := by
            unfold origin
            split <;> rfl
          simp only [horigin] at h
          rcases ih links (Nat.lt_succ_self links) h with ⟨hrest, hfound⟩ | ⟨hrest, herror⟩
          · exact .inl ⟨List.forall_mem_append.2 ⟨hshort, hrest⟩, hfound⟩
          · exact .inr ⟨hrest.mono fun q hq => List.mem_append_right _ hq, herror⟩
    · rw [hblocked]
      exact .inr ⟨hlong.mono fun q hq => List.mem_append_left _ hq, rfl⟩

/-- Through names alone the builder comes to the directory at their end, if its path is not too
long. -/
theorem straighten_names (hvalid : d.Valid)
    (hdirectory : d.node? (.named (trail ++ names)) = some (.directory entries))
    (hshort : (Path.ofTrail (trail ++ names)).bytes.length < maxPath) :
    d.straighten false trail names = .whole (trail ++ names) := by
  induction names generalizing trail with
  | nil => rw [straighten, List.append_nil]
  | cons name rest ih =>
    have hnames := Node.Valid.names hvalid hdirectory
    rw [List.forall_mem_append, List.forall_mem_cons] at hnames
    obtain ⟨-, hname, hrest⟩ := hnames
    have happend : trail ++ name :: rest = trail ++ [name] ++ rest := by simp
    rw [happend] at hdirectory hshort
    have hlength := Nat.lt_of_le_of_lt (Path.length_ofTrail_le (trail ++ [name]) rest) hshort
    -- under the name stands a directory, and what comes after demands none
    obtain ⟨below, hbelow⟩ := directory_of_append hdirectory
    obtain ⟨listed, hnode, hfind⟩ := Node.at?_concat_eq_some hbelow
    have hentry : d.entry trail name = .ok (.directory below) := by
      unfold entry
      rw [if_neg (Nat.not_le.2 hlength), node?, hnode]
      simp only [if_neg (Nat.not_lt.2 hname.length_le), hfind]
    have hdemand : demandsDirectory rest false = false := by
      cases rest with
      | nil => rfl
      | cons next rest =>
        have hnext := hrest next (List.mem_cons_self ..)
        rw [demandsDirectory_cons hnext.ne_dot]
        exact decide_eq_false hnext.ne_dotDot
    rw [straighten_cons hname.ne_dot hname.ne_dotDot (by simp [hentry]), hdemand,
      if_neg Bool.false_ne_true, hentry, happend]
    exact ih hdirectory hshort

end Disk

namespace World

variable {w : World} {p root : Path} {trail : List Name}

/-- Whether a path leads to the directory at `trail`, its own length and all others apart. -/
structure LeadsTo (w : World) (p : Path) (trail : List Name) : Prop where
  nul : (0 : UInt8) ∉ p.bytes
  nonempty : p.isEmpty = false
  found : ∃ slash entries, w.locate true p = .found (.named trail) slash ∧
    w.disk.node? (.named trail) = some (.directory entries)

/-- The paths that are asked for on the way from a path to its canonical form. Without a current
directory none are asked for on the way from a relative path. -/
def asked (w : World) (p : Path) : List Path :=
  match Disk.origin p w.cwd with
  | .named start => w.disk.asked maxLinks start p.steps p.endsInSlash
  | .removed _ => []

/-- Whether a path resolves to a directory: it leads to one, whatever its own length, and the paths that
are asked for on the way to its canonical form, and that form itself, are short enough for the system.
Without a current directory only an absolute path does. -/
structure Resolves (w : World) (p : Path) (trail : List Name) : Prop where
  leads : w.LeadsTo p trail
  start : ∃ start, Disk.origin p w.cwd = .named start
  stepsShort : ∀ q ∈ w.asked p, q.bytes.length < maxPath
  short : (Path.ofTrail trail).bytes.length < maxPath

/-- Where the names lead to a directory, the path through them leads. -/
theorem locate_ofTrail (hdisk : w.disk.Valid) {node : Node}
    (hnode : w.disk.node? (.named trail) = some node) (hlink : ∀ target, node ≠ .link target)
    (followLast : Bool) :
    w.locate followLast (.ofTrail trail) =
      .found (.named trail) (Path.ofTrail trail).endsInSlash := by
  have htrail : ∀ name ∈ trail, Name.Valid name := Node.Valid.names hdisk hnode
  have horigin := Path.origin_ofTrail htrail w.cwd
  have hroot := chase_root hdisk hnode hlink followLast maxLinks [] (Path.ofTrail trail).endsInSlash
  rw [List.append_nil] at hroot
  rw [locate, horigin, Path.steps_ofTrail htrail, hroot, Disk.chase.eq_def, Disk.advance_nil]

/-- The absolute path to a directory is refused only for its length. -/
theorem refusal?_ofTrail (h : ∀ name ∈ trail, Name.Valid name) :
    (Path.ofTrail trail).refusal? =
      if maxPath ≤ (Path.ofTrail trail).bytes.length then some (.os .nameTooLong) else none := by
  rw [Path.ofTrail_eq_joinAll h]
  exact refusal?_joinAll rfl h

/-- The absolute path to a directory leads to it, when it is not too long. -/
theorem follow_ofTrail (hdisk : w.disk.Valid) {entries : Listing}
    (hnode : w.disk.node? (.named trail) = some (.directory entries))
    (hshort : (Path.ofTrail trail).bytes.length < maxPath) :
    w.follow (.ofTrail trail) = .ok (.named trail, .directory entries) := by
  have hrefusal := refusal?_ofTrail (Node.Valid.names hdisk hnode)
  rw [if_neg (Nat.not_le.2 hshort)] at hrefusal
  exact follow_eq_ok_iff.2
    ⟨hrefusal, _, locate_ofTrail hdisk hnode (by simp) true, hnode, fun _ => rfl⟩

/-- The canonical form of a path is built from where the path starts. -/
theorem canonical_eq_ofTrail (hnul : (0 : UInt8) ∉ p.bytes) (hempty : p.isEmpty = false)
    {start : List Name} (hstart : Disk.origin p w.cwd = .named start) :
    w.canonical p =
      ((w.disk.resolve maxLinks start p.steps p.endsInSlash).map Path.ofTrail).mapError .os := by
  unfold canonical
  simp only [List.contains_eq_mem, hnul, hempty, hstart, decide_false, Bool.false_eq_true, if_false]
  cases w.disk.resolve maxLinks start p.steps p.endsInSlash <;> rfl

/-- A path that leads to a directory has a canonical form, which leads there through names alone, unless
a path that is asked for is too long. -/
theorem canonical_of_leadsTo (hleads : w.LeadsTo p trail)
    (hstart : ∃ start, Disk.origin p w.cwd = .named start) :
    (∀ q ∈ w.asked p, q.bytes.length < maxPath) ∧ w.canonical p = .ok (.ofTrail trail) ∨
      w.disk.Overlong (w.asked p) ∧ w.canonical p = .error (.os .nameTooLong) := by
  obtain ⟨hnul, hempty, slash, entries, hlocate, hnode⟩ := hleads
  obtain ⟨start, hstart⟩ := hstart
  have hcanonical := canonical_eq_ofTrail hnul hempty hstart
  rw [locate, hstart] at hlocate
  rw [asked, hstart, hcanonical]
  rcases Disk.resolve_of_chase hlocate hnode with ⟨hshort, found, heq, hfound⟩ | ⟨hlong, herror⟩
  · obtain ⟨rfl⟩ := heq
    exact .inl ⟨hshort, by rw [hfound]; rfl⟩
  · exact .inr ⟨hlong, by rw [herror]; rfl⟩

/-- On the way a link is asked for, then what it leads to, and the directory of which a step back up makes
sure. -/
example : sample.asked (.ofString "up/a/..") =
    [.ofString "/p/up", .ofString "/p", .ofString "/p/a", .ofString "/p/a/"] := by decide +kernel

/-- A path has a canonical form that leads to a directory exactly when it resolves to one. -/
theorem canonical_iff_resolves (hw : w.Valid) :
    w.canonical p = .ok root ∧ w.isDirectory root = true ↔
      ∃ trail, root = .ofTrail trail ∧ w.Resolves p trail := by
  constructor
  · rintro ⟨hcanonical, hdirectory⟩
    obtain ⟨trail, node, slash, rfl, hlocate, hnode, hlink, -, hnul, hempty⟩ :=
      canonical_eq_ok hw hcanonical
    obtain ⟨place, entries, hfollow⟩ := isDirectory_iff.1 hdirectory
    obtain ⟨hrefusal, slash', hlocate', hnode', -⟩ := follow_eq_ok_iff.1 hfollow
    rw [locate_ofTrail hw.disk hnode hlink] at hlocate'
    obtain ⟨rfl, -⟩ := Disk.Goal.found.inj hlocate'
    have hleads : w.LeadsTo p trail := ⟨hnul, hempty, slash, entries, hlocate, hnode'⟩
    have hstart : ∃ start, Disk.origin p w.cwd = .named start := by
      unfold canonical at hcanonical
      cases horigin : Disk.origin p w.cwd with
      | named start => exact ⟨start, rfl⟩
      | removed above => simp [hnul, hempty, horigin] at hcanonical
    rcases canonical_of_leadsTo hleads hstart with ⟨hsteps, -⟩ | ⟨-, herror⟩
    · exact ⟨trail, rfl, hleads, hstart, hsteps, (refusal?_eq_none_iff.1 hrefusal).2.2⟩
    · rw [herror] at hcanonical
      cases hcanonical
  · rintro ⟨trail, rfl, hleads, hstart, hsteps, hshort⟩
    obtain ⟨slash, entries, -, hnode⟩ := hleads.found
    rcases canonical_of_leadsTo hleads hstart with ⟨-, hcanonical⟩ | ⟨⟨-, q, hq, hlong⟩, -⟩
    · exact ⟨hcanonical, isDirectory_iff.2 ⟨_, _, follow_ofTrail hw.disk hnode hshort⟩⟩
    · exact absurd (hsteps q hq) (Nat.not_lt.2 hlong)

/-- Where no path is too long, a path resolves to the directory that it leads to, a relative one from a
current directory. -/
theorem resolves_iff_leadsTo (hshort : ¬ w.disk.TooDeep) :
    w.Resolves p trail ↔
      w.LeadsTo p trail ∧ ∃ start, Disk.origin p w.cwd = .named start := by
  refine ⟨fun h => ⟨h.leads, h.start⟩, ?_⟩
  rintro ⟨hleads, hstart⟩
  obtain ⟨slash, entries, -, hnode⟩ := hleads.found
  rcases canonical_of_leadsTo hleads hstart with ⟨hsteps, -⟩ | ⟨hlong, -⟩
  · refine ⟨hleads, hstart, hsteps, ?_⟩
    exact Nat.lt_of_not_le fun hlong => hshort ⟨trail, _, hnode, Nat.le_succ_of_le hlong⟩
  · exact absurd hlong.1 hshort

/-- The path of a directory resolves to it exactly when it is not too long. -/
theorem resolves_ofTrail_iff (hdisk : w.disk.Valid) {entries : Listing}
    (hnode : w.disk.node? (.named trail) = some (.directory entries)) {there : List Name} :
    w.Resolves (.ofTrail trail) there ↔
      there = trail ∧ (Path.ofTrail trail).bytes.length < maxPath := by
  have htrail : ∀ name ∈ trail, Name.Valid name := Node.Valid.names hdisk hnode
  have hlocate := locate_ofTrail hdisk hnode (by simp) true
  constructor
  · intro h
    obtain ⟨slash, _, hthere, -⟩ := h.leads.found
    rw [hlocate] at hthere
    obtain ⟨heq, -⟩ := Disk.Goal.found.inj hthere
    obtain ⟨rfl⟩ := heq
    exact ⟨rfl, h.short⟩
  · rintro ⟨rfl, hshort⟩
    have horigin := Path.origin_ofTrail htrail w.cwd
    have hrefusal := refusal?_ofTrail htrail
    rw [if_neg (Nat.not_le.2 hshort)] at hrefusal
    obtain ⟨hnul, hempty, -⟩ := refusal?_eq_none_iff.1 hrefusal
    have hleads : w.LeadsTo (.ofTrail there) there := ⟨hnul, hempty, _, entries, hlocate, hnode⟩
    refine ⟨hleads, ⟨[], horigin⟩, ?_, hshort⟩
    have hresolve : w.disk.resolve maxLinks [] (Path.ofTrail there).steps
        (Path.ofTrail there).endsInSlash = .ok there := by
      rw [Path.steps_ofTrail htrail, Disk.resolve]
      cases there with
      | nil => rfl
      | cons name rest =>
        have hslash : (Path.ofTrail (name :: rest)).endsInSlash = false := by
          rw [Path.ofTrail_eq_joinAll htrail]
          exact Path.endsInSlash_joinAll _ htrail (List.cons_ne_nil name rest)
        have hwhole : w.disk.straighten false [] (name :: rest) = .whole ([] ++ name :: rest) :=
          Disk.straighten_names hdisk hnode hshort
        rw [List.nil_append] at hwhole
        rw [hslash, hwhole]
    -- the form is found, so nothing that was asked for was too long
    rcases canonical_of_leadsTo hleads ⟨[], horigin⟩ with ⟨hsteps, -⟩ | ⟨-, herror⟩
    · exact hsteps
    · rw [canonical_eq_ofTrail hnul hempty horigin, hresolve] at herror
      cases herror

/-! ### Deep directories -/

/-- The longest name that a directory can hold. -/
def longName : Name := List.replicate maxName 0x61

/-- Directories with long names, `depth` of them one inside the other. -/
def nested : Nat → Listing
  | 0 => []
  | depth + 1 => [(longName, .directory (nested depth))]

/-- A world with nothing but nested directories, seen from the innermost. -/
def deep (depth : Nat) : World where
  disk := ⟨nested depth⟩
  cwd := .named (List.replicate depth longName)
  homeVariable := none
  accountHome := "/"

theorem at?_nested (depth : Nat) :
    (Node.directory (nested depth)).at? (List.replicate depth longName) = some (.directory []) := by
  induction depth with
  | zero => rfl
  | succ depth ih =>
    rw [List.replicate_succ, nested, Node.at?_cons (by rw [Listing.find?_cons, if_pos rfl])]
    exact ih

/-- In the innermost directory nothing is listed. -/
theorem node?_deep (depth : Nat) :
    (deep depth).disk.node? (.named (List.replicate depth longName)) = some (.directory []) :=
  at?_nested depth

theorem length_longName : longName.length = maxName := List.length_replicate ..

theorem valid_longName : Name.Valid longName := by
  have hlength := length_longName
  have hne : ∀ short : Name, short.length ≠ maxName → longName ≠ short := by
    rintro short hshort rfl
    exact hshort hlength
  have hbyte : ∀ b : UInt8, b ≠ 0x61 → b ∉ longName := by
    intro b hb hmem
    exact hb (List.eq_of_mem_replicate hmem)
  exact ⟨hne [] (by decide), hne _ (by decide), hne _ (by decide), hbyte _ (by decide),
    hbyte _ (by decide), Nat.le_of_eq hlength⟩

theorem valid_deep (depth : Nat) : (deep depth).Valid := by
  refine ⟨?_, [], node?_deep depth⟩
  change (Node.directory (nested depth)).Valid
  induction depth with
  | zero => exact Node.valid_directory_iff.2 ⟨by decide, by simp [nested]⟩
  | succ depth ih =>
    refine Node.valid_directory_iff.2 ⟨⟨?_, ?_⟩, ?_⟩
    · simpa [nested] using valid_longName
    · simp [nested]
    · simpa [nested] using ih

theorem length_ofTrail_deep (depth : Nat) :
    (Path.ofTrail (List.replicate (depth + 1) longName)).bytes.length = (depth + 1) * 256 := by
  rw [List.replicate_succ, Path.ofTrail, List.length_flatMap, ← List.replicate_succ,
    List.map_replicate, List.sum_replicate_nat, List.length_cons, length_longName]
  rfl

/-! ### The project root -/

/-- The path that a run starts from: the given one, or else that of the current directory. -/
def rootPath (w : World) (given : Option Path) : Except IoError Path :=
  given.elim w.currentDirectory fun p => .ok (w.expand p)

/-- The project root is found exactly when the path that the run starts from resolves to a
directory. -/
theorem projectRoot_eq_ok_iff (hw : w.Valid) {given : Option Path} (hpath : w.rootPath given = .ok p) :
    w.projectRoot given = .ok root ↔ ∃ trail, root = .ofTrail trail ∧ w.Resolves p trail := by
  rw [← canonical_iff_resolves hw]
  unfold projectRoot
  rw [rootPath] at hpath
  rw [hpath]
  dsimp only
  cases w.canonical p with
  | error cause => simp
  | ok resolved =>
    dsimp only
    split
    · next hdirectory =>
      constructor
      · rintro ⟨rfl⟩
        exact ⟨rfl, hdirectory⟩
      · rintro ⟨⟨rfl⟩, -⟩
        rfl
    · next hdirectory =>
      constructor
      · intro h
        cases h
      · rintro ⟨⟨rfl⟩, htrue⟩
        exact absurd htrue hdirectory

/-- A path that does not serve as the root is a fault of the setup. -/
theorem setup_of_projectRoot {given : Option Path} {failure : Failure}
    (hpath : w.rootPath given = .ok p) (h : w.projectRoot given = .error failure) :
    ∃ fault, failure = .setup fault := by
  unfold projectRoot at h
  rw [rootPath] at hpath
  rw [hpath] at h
  dsimp only at h
  split at h
  · obtain ⟨rfl⟩ := h
    exact ⟨_, rfl⟩
  · split at h
    · cases h
    · obtain ⟨rfl⟩ := h
      exact ⟨_, rfl⟩

/-- And so it is none of the disk. -/
theorem isIo_projectRoot {given : Option Path} {failure : Failure}
    (hpath : w.rootPath given = .ok p) (h : w.projectRoot given = .error failure) :
    failure.isIo = false := by
  obtain ⟨fault, rfl⟩ := setup_of_projectRoot hpath h
  rfl

end World

end SourceBundle
