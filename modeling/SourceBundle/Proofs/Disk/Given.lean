import SourceBundle.Proofs.Disk.Resolving
import SourceBundle.Proofs.Path.Home

/-!
What a given path comes to. A path that resolves to a directory serves as the root in its canonical
form: absolute, made of names alone, no link on the way, and given again it resolves to itself. A path
that is not UTF-8 is taken as it is shown, so it is not the path that was given.
-/

namespace SourceBundle

namespace Disk

variable {d : Disk} {place : Place} {trail names : List Name} {entries : Listing} {slash : Bool}

/-- A straight walk takes names that lead to no link. -/
theorem advance_below {top node : Node} (htop : d.node? place = some top) (hvalid : top.Valid)
    (hat : top.at? names = some node) (hlink : ∀ target, node ≠ .link target) (followLast : Bool) :
    d.advance followLast place names = .found (place.below names) := by
  have hchase := chase_below htop hvalid hat hlink followLast 0 [] false
  rw [List.append_nil, chase.eq_def, chase.eq_def, Bool.or_false, advance_nil] at hchase
  cases hadvance : d.advance followLast place names with
  | found there =>
    rw [hadvance] at hchase
    rw [(Goal.found.inj hchase).1]
  | vacant dir name => rw [hadvance] at hchase; cases hchase
  | link dir target rest => rw [hadvance] at hchase; cases hchase
  | blocked cause => rw [hadvance] at hchase; cases hchase

/-- The directory at the end of names that lead to no link is asked for by its path. -/
theorem ofTrail_mem_askedStraight (hnames : ∀ name ∈ names, Name.Normal name)
    (hdirectory : d.node? (.named (trail ++ names)) = some (.directory entries)) (hne : names ≠ []) :
    .ofTrail (trail ++ names) ∈ d.askedStraight slash trail names := by
  induction names generalizing trail with
  | nil => exact absurd rfl hne
  | cons name rest ih =>
    obtain ⟨hname, hrest⟩ := List.forall_mem_cons.1 hnames
    have happend : trail ++ name :: rest = trail ++ [name] ++ rest := by simp
    rw [happend] at hdirectory ⊢
    obtain ⟨above, habove⟩ := directory_of_append hdirectory
    rw [askedStraight, if_neg hname.ne_dot, if_neg hname.ne_dotDot, habove]
    by_cases hend : rest = []
    · subst hend
      rw [List.append_nil]
      exact List.mem_append_left _ (List.mem_cons_self ..)
    · exact List.mem_append_right _ (ih hrest hdirectory hend)

/-- A directory whose path is too long is not found by it. -/
theorem straighten_names_too_long (hvalid : d.Valid)
    (hdirectory : d.node? (.named names) = some (.directory entries))
    (hlong : maxPath ≤ (Path.ofTrail names).bytes.length) :
    d.straighten slash [] names = .blocked .nameTooLong := by
  have hnames : ∀ name ∈ names, Name.Normal name := fun name hname =>
    (Node.Valid.names hvalid hdirectory name hname).normal
  have hne : names ≠ [] := by
    rintro rfl
    exact absurd hlong (by decide)
  have hpasses : Halt.Passes d (d.advance true (.named []) names) := by
    rw [advance_below rfl hvalid hdirectory (by simp), Place.below_named, List.nil_append]
    exact ⟨entries, hdirectory⟩
  rcases straighten_of_passes slash hpasses with ⟨hshort, -⟩ | ⟨-, hblocked⟩
  · have hasked : .ofTrail names ∈ d.askedStraight slash [] names :=
      ofTrail_mem_askedStraight hnames hdirectory hne
    exact absurd (hshort _ hasked) (Nat.not_lt.2 hlong)
  · exact hblocked

/-- A disk whose tree does not reach far holds nothing that is too deep. -/
theorem not_tooDeep_of_reach (hvalid : d.Valid) (hreach : d.root.reach + 2 < maxPath) :
    ¬ d.TooDeep := by
  rintro ⟨trail, node, hnode, hlong⟩
  have hlength := Path.length_joinAll_le ⟨[Bytes.slash]⟩ hnode
  rw [← Path.ofTrail_eq_joinAll (Node.Valid.names hvalid hnode), List.length_singleton] at hlength
  omega

end Disk

namespace World

variable {w : World} {p root : Path} {here trail : List Name} {entries : Listing}

/-! ### Canonical roots -/

/-- Whether a path is the canonical one of the directory at `trail`: it starts from the root of the
disk, is made of names alone, and is a directory itself at each of them, never a link. -/
structure CanonicalAt (w : World) (root : Path) (trail : List Name) : Prop where
  absolute : root.isAbsolute = true
  components : root.components = .root :: trail.map .name
  straight : ∀ front, front <+: trail → ∃ entries,
    w.inspect (.ofTrail front) = .ok (.named front, .directory entries)
  leads : ∃ entries, w.follow root = .ok (.named trail, .directory entries)

/-- What a path resolves to has a canonical path. -/
theorem Resolves.canonicalAt (hdisk : w.disk.Valid) (h : w.Resolves p trail) :
    w.CanonicalAt (.ofTrail trail) trail := by
  obtain ⟨-, entries, -, hnode⟩ := h.leads.found
  have hnames : ∀ name ∈ trail, Name.Valid name := Node.Valid.names hdisk hnode
  refine ⟨Path.isAbsolute_ofTrail hnames, ?_, ?_, entries, follow_ofTrail hdisk hnode h.short⟩
  · rw [Path.ofTrail_eq_joinAll hnames, Path.components_joinAll _ hnames]
    rfl
  · rintro front ⟨back, rfl⟩
    obtain ⟨above, habove⟩ := Disk.directory_of_append hnode
    have hshort := Nat.lt_of_le_of_lt (Path.length_ofTrail_le front back) h.short
    have hrefusal := refusal?_ofTrail (Node.Valid.names hdisk habove)
    rw [if_neg (Nat.not_le.2 hshort)] at hrefusal
    exact ⟨above, inspect_eq_ok_iff.2 ⟨hrefusal, _, locate_ofTrail hdisk habove (by simp) false,
      habove, fun _ => rfl⟩⟩

/-- A canonical path that is UTF-8 is given back as it is. -/
theorem projectRoot_ofTrail (hw : w.Valid)
    (hnode : w.disk.node? (.named trail) = some (.directory entries))
    (hshort : (Path.ofTrail trail).bytes.length < maxPath)
    (hutf : Utf8.isWellFormed (Path.ofTrail trail).bytes = true) :
    w.projectRoot (some (.ofTrail trail)) = .ok (.ofTrail trail) := by
  have hslash : (Path.ofTrail trail).bytes.head? ≠ some 0x7E := by
    have habsolute := Path.isAbsolute_ofTrail (Node.Valid.names hw.disk hnode)
    rw [Path.isAbsolute, beq_iff_eq] at habsolute
    rw [habsolute]
    decide
  have hpath : w.rootPath (some (.ofTrail trail)) = .ok (.ofTrail trail) := by
    rw [rootPath, Option.elim_some, expand_of_isWellFormed hutf, Path.fromHome_of_head? hslash]
  exact (projectRoot_eq_ok_iff hw hpath).2
    ⟨trail, rfl, (resolves_ofTrail_iff hw.disk hnode).2 ⟨rfl, hshort⟩⟩

/-! ### The current directory -/

/-- The path of a directory leads to it exactly when it is not too long. -/
theorem isDirectory_ofTrail (hdisk : w.disk.Valid)
    (hnode : w.disk.node? (.named trail) = some (.directory entries)) :
    w.isDirectory (.ofTrail trail) = decide ((Path.ofTrail trail).bytes.length < maxPath) := by
  by_cases hshort : (Path.ofTrail trail).bytes.length < maxPath
  · rw [decide_eq_true hshort]
    exact isDirectory_iff.2 ⟨_, _, follow_ofTrail hdisk hnode hshort⟩
  · have hrefusal := refusal?_ofTrail (Node.Valid.names hdisk hnode)
    rw [if_pos (Nat.not_lt.1 hshort)] at hrefusal
    simp only [isDirectory, follow, hrefusal, decide_eq_false hshort]

/-- A dot is brought to the path of the current directory, which nothing asks for. -/
theorem projectRoot_dot (hw : w.Valid) (hcwd : w.cwd = .named here) :
    w.projectRoot (some (.ofString ".")) =
      if (Path.ofTrail here).bytes.length < maxPath then .ok (.ofTrail here)
      else .error (.setup (.rootNotDirectory (.ofTrail here))) := by
  obtain ⟨entries, hnode⟩ := hw.cwd
  rw [hcwd] at hnode
  have hexpand : w.expand (.ofString ".") = .ofString "." :=
    (expand_of_head? (by decide)).trans (congrArg Path.ofString (Path.shown_ofString "."))
  have hstart : Disk.origin (.ofString ".") w.cwd = .named here := hcwd
  have hresolve : w.disk.resolve maxLinks here [Bytes.dot] false = .ok here := by
    rw [Disk.resolve, Disk.straighten, if_pos rfl, Disk.straighten]
  have hcanonical : w.canonical (.ofString ".") = .ok (.ofTrail here) := by
    rw [canonical_eq_ofTrail (by decide) rfl hstart]
    exact congrArg (fun found => (Except.map Path.ofTrail found).mapError IoError.os) hresolve
  simp only [projectRoot, Option.elim_some, hexpand, hcanonical, isDirectory_ofTrail hw.disk hnode,
    decide_eq_true_eq]

/-- The path of a directory that is too long has no canonical form. -/
theorem canonical_ofTrail_too_long (hdisk : w.disk.Valid)
    (hnode : w.disk.node? (.named trail) = some (.directory entries))
    (hlong : maxPath ≤ (Path.ofTrail trail).bytes.length) :
    w.canonical (.ofTrail trail) = .error (.os .nameTooLong) := by
  have htrail : ∀ name ∈ trail, Name.Valid name := Node.Valid.names hdisk hnode
  have hnul : (0 : UInt8) ∉ (Path.ofTrail trail).bytes := by
    rw [Path.ofTrail_eq_joinAll htrail, Path.nul_mem_joinAll _ htrail]
    decide
  have hempty : (Path.ofTrail trail).isEmpty = false := by
    rw [Path.ofTrail_eq_joinAll htrail]
    exact Path.isEmpty_joinAll rfl htrail
  rw [canonical_eq_ofTrail hnul hempty (Path.origin_ofTrail htrail w.cwd), Path.steps_ofTrail htrail,
    Disk.resolve, Disk.straighten_names_too_long hdisk hnode hlong]
  rfl

/-- Without a path the root is the current directory, asked for by its path. -/
theorem projectRoot_none (hw : w.Valid) (hcwd : w.cwd = .named here) :
    w.projectRoot none =
      if (Path.ofTrail here).bytes.length < maxPath then .ok (.ofTrail here)
      else .error (.setup (.unresolvedRoot (.ofTrail here) (.os .nameTooLong))) := by
  obtain ⟨entries, hnode⟩ := hw.cwd
  rw [hcwd] at hnode
  have hpath : w.rootPath none = .ok (.ofTrail here) := by
    rw [rootPath, Option.elim_none, currentDirectory, hcwd]
  split
  · next hshort =>
    exact (projectRoot_eq_ok_iff hw hpath).2
      ⟨here, rfl, (resolves_ofTrail_iff hw.disk hnode).2 ⟨rfl, hshort⟩⟩
  · next hlong =>
    have hcanonical := canonical_ofTrail_too_long hw.disk hnode (Nat.not_lt.1 hlong)
    rw [rootPath] at hpath
    simp only [projectRoot, hpath, hcanonical]

/-! ### What serves as the root -/

/-- The project root that a path comes to, without and with the limit on the length of a path. -/
structure RootGiven (w : World) (p : Path) : Prop where
  /-- It is the directory that the path resolves to, the tilde replaced. -/
  found : ∀ root, w.projectRoot (some p) = .ok root ↔
    ∃ trail, root = .ofTrail trail ∧ w.Resolves (p.fromHome w.home) trail
  /-- To resolve to a directory is to lead to it, on a disk where no path is too long. -/
  plain : ∀ here, w.cwd = .named here → ¬ w.disk.TooDeep → ∀ trail,
    w.Resolves (p.fromHome w.home) trail ↔ w.LeadsTo (p.fromHome w.home) trail
  /-- It is a canonical path, of the directory that the path leads to. -/
  canonical : ∀ root, w.projectRoot (some p) = .ok root →
    ∃ trail, w.LeadsTo (p.fromHome w.home) trail ∧ w.CanonicalAt root trail
  /-- Given as a path itself it comes to itself, whatever the current and the home directory are. -/
  again : ∀ root (w' : World), w.projectRoot (some p) = .ok root →
    Utf8.isWellFormed root.bytes = true → w'.Valid → w'.disk = w.disk →
    w'.projectRoot (some root) = .ok root
  /-- Without it the setup is at fault. -/
  faulty : ∀ failure, w.projectRoot (some p) = .error failure →
    (∃ fault, failure = .setup fault) ∧ failure.isIo = false
  /-- No path is as good as a dot where the path of the current directory is not too long. -/
  absent : ∀ here, w.cwd = .named here → (Path.ofTrail here).bytes.length < maxPath →
    w.projectRoot none = w.projectRoot (some (.ofString "."))
  /-- Where it is too long, both are at fault. -/
  tooDeep : ∀ here, w.cwd = .named here → maxPath ≤ (Path.ofTrail here).bytes.length →
    ∀ given, given = none ∨ given = some (.ofString ".") →
      ∃ fault, w.projectRoot given = .error (.setup fault)

/-- The root for a path that is UTF-8 comes about in this way. -/
theorem root_given (hw : w.Valid) (hp : Utf8.isWellFormed p.bytes = true) : w.RootGiven p := by
  have hpath : w.rootPath (some p) = .ok (p.fromHome w.home) := by
    rw [rootPath, Option.elim_some, expand_of_isWellFormed hp]
  have hfound : ∀ root, w.projectRoot (some p) = .ok root ↔
      ∃ trail, root = .ofTrail trail ∧ w.Resolves (p.fromHome w.home) trail :=
    fun _ => projectRoot_eq_ok_iff hw hpath
  refine ⟨hfound, ?_, ?_, ?_, ?_, ?_, ?_⟩
  · intro here hcwd hshort trail
    have hstart : ∃ start, Disk.origin (p.fromHome w.home) w.cwd = .named start := by
      rw [hcwd]
      unfold Disk.origin
      split <;> exact ⟨_, rfl⟩
    exact (resolves_iff_leadsTo hshort).trans (and_iff_left hstart)
  · intro root hroot
    obtain ⟨trail, rfl, hresolves⟩ := (hfound root).1 hroot
    exact ⟨trail, hresolves.leads, hresolves.canonicalAt hw.disk⟩
  · intro root w' hroot hutf hw' hdisk
    obtain ⟨trail, rfl, hresolves⟩ := (hfound root).1 hroot
    obtain ⟨-, entries, -, hnode⟩ := hresolves.leads.found
    rw [← hdisk] at hnode
    exact projectRoot_ofTrail hw' hnode hresolves.short hutf
  · intro failure hfailure
    exact ⟨setup_of_projectRoot hpath hfailure, isIo_projectRoot hpath hfailure⟩
  · intro here hcwd hshort
    rw [projectRoot_none hw hcwd, projectRoot_dot hw hcwd, if_pos hshort, if_pos hshort]
  · rintro here hcwd hlong given (rfl | rfl)
    · rw [projectRoot_none hw hcwd, if_neg (Nat.not_lt.2 hlong)]
      exact ⟨_, rfl⟩
    · rw [projectRoot_dot hw hcwd, if_neg (Nat.not_lt.2 hlong)]
      exact ⟨_, rfl⟩

/-- On the small disk: a way over a link that leads round in a circle, back up, and from the home
directory. -/
theorem root_given_sample :
    sample.Valid ∧ Utf8.isWellFormed (Path.ofString "~/up/a/..").bytes = true ∧
      ¬ sample.disk.TooDeep ∧
      sample.projectRoot (some (.ofString "~/up/a/..")) = .ok (.ofTrail [[0x70]]) ∧
      sample.Resolves ((Path.ofString "~/up/a/..").fromHome sample.home) [[0x70]] ∧
      sample.LeadsTo ((Path.ofString "~/up/a/..").fromHome sample.home) [[0x70]] ∧
      sample.CanonicalAt (.ofTrail [[0x70]]) [[0x70]] ∧
      { sample with cwd := .named [], accountHome := "/q" }.projectRoot
        (some (.ofTrail [[0x70]])) = .ok (.ofTrail [[0x70]]) := by
  have hsample : sample.Valid := ⟨Disk.valid_sample, Disk.project, rfl⟩
  have hutf : Utf8.isWellFormed (Path.ofString "~/up/a/..").bytes = true := rfl
  have hshort : ¬ sample.disk.TooDeep := Disk.not_tooDeep_of_reach Disk.valid_sample (by decide)
  have hgiven := root_given hsample hutf
  have hroot : sample.projectRoot (some (.ofString "~/up/a/..")) = .ok (.ofTrail [[0x70]]) := rfl
  obtain ⟨trail, htrail, hresolves⟩ := (hgiven.found _).1 hroot
  have hcanonical := hresolves.canonicalAt hsample.disk
  -- the names are told by the components
  obtain rfl : trail = [[0x70]] := by
    have hnames : [.root, .name [0x70]] = Path.Component.root :: trail.map .name := by
      rw [← hcanonical.components, ← htrail]
      rfl
    obtain ⟨name, rfl, hname⟩ := List.map_eq_singleton_iff.1 (List.cons.inj hnames).2.symm
    rw [Path.Component.name.inj hname]
  exact ⟨hsample, hutf, hshort, hroot, hresolves, (hgiven.plain _ rfl hshort _).1 hresolves,
    hcanonical, hgiven.again _ _ hroot rfl ⟨Disk.valid_sample, _, rfl⟩ rfl⟩

/-- A dot leads to the current directory, however deep it is, but where it is too deep the dot serves
for no root; and the fault is not the one that is found without a path. -/
theorem root_given_deep :
    (deep 16).Valid ∧ (deep 16).cwd = .named (List.replicate 16 longName) ∧
      Utf8.isWellFormed (Path.ofString ".").bytes = true ∧
      (deep 16).follow (.ofString ".") =
        .ok (.named (List.replicate 16 longName), .directory []) ∧
      (∀ root, (deep 16).projectRoot (some (.ofString ".")) ≠ .ok root) ∧
      (deep 16).projectRoot none ≠ (deep 16).projectRoot (some (.ofString ".")) := by
  have hlong : ¬ (Path.ofTrail (List.replicate 16 longName)).bytes.length < maxPath := by
    rw [length_ofTrail_deep]
    decide
  have hdot := projectRoot_dot (valid_deep 16) rfl
  have hnone := projectRoot_none (valid_deep 16) rfl
  rw [if_neg hlong] at hdot hnone
  refine ⟨valid_deep 16, rfl, rfl, ?_, ?_, ?_⟩
  · refine follow_eq_ok_iff.2 ⟨rfl, false, ?_, node?_deep 16, fun _ => rfl⟩
    change (deep 16).disk.chase true maxLinks (.named (List.replicate 16 longName)) [Bytes.dot]
      false = _
    rw [Disk.chase.eq_def, Disk.advance_cons, Disk.turn_dot (node?_deep 16)]
    simp only [Disk.advance_nil]
  · intro root hroot
    rw [hdot] at hroot
    cases hroot
  · rw [hnone, hdot]
    simp

/-! ### What is not UTF-8 -/

/-- The two uses of a path without a leading tilde: it is taken as it is shown. -/
structure TakenAsShown (w : World) (p : Path) : Prop where
  output : w.outputPath (some p) = .ofString p.shown
  /-- The file to write is the named one just when the path is UTF-8. -/
  output_eq_iff : w.outputPath (some p) = p ↔ Utf8.isWellFormed p.bytes = true
  root : w.projectRoot (some p) = w.projectRoot (some (.ofString p.shown))
  /-- The root is the directory that the shown path resolves to. -/
  root_eq_ok_iff : ∀ root, w.projectRoot (some p) = .ok root ↔
    ∃ trail, root = .ofTrail trail ∧ w.Resolves (.ofString p.shown) trail
  /-- It is the directory that the path itself resolves to when the path is UTF-8. -/
  root_of_isWellFormed : Utf8.isWellFormed p.bytes = true → ∀ root,
    (w.projectRoot (some p) = .ok root ↔ ∃ trail, root = .ofTrail trail ∧ w.Resolves p trail)

/-- A path without a leading tilde is taken as it is shown, for the output and for the root. -/
theorem taken_as_shown (hw : w.Valid) (htilde : p.bytes.head? ≠ some 0x7E) : w.TakenAsShown p := by
  have hexpand : w.expand p = .ofString p.shown := expand_of_head? htilde
  have hagain : w.expand (.ofString p.shown) = .ofString p.shown := by
    rw [expand_of_head? (Path.head?_ofString_shown htilde), Path.shown_ofString]
  have hfound : ∀ root, w.projectRoot (some p) = .ok root ↔
      ∃ trail, root = .ofTrail trail ∧ w.Resolves (.ofString p.shown) trail :=
    fun _ => projectRoot_eq_ok_iff hw (by rw [rootPath, Option.elim_some, hexpand])
  refine ⟨hexpand, ?_, ?_, hfound, ?_⟩
  · rw [outputPath, hexpand]
    exact Path.ofString_shown_iff
  · simp only [projectRoot, Option.elim_some, hexpand, hagain]
  · intro hutf root
    rw [hfound, Path.ofString_shown_iff.2 hutf]

/-- A disk with a directory `d`, a link to it whose name is `a` and a byte that is not UTF-8, and a
directory whose name is that name as it is shown. -/
def misnamed : World where
  disk := ⟨[([0x64], .directory []), ([0x61, 0xFF], .link ⟨[0x64]⟩),
    ([0x61, 0xEF, 0xBF, 0xBD], .directory [])]⟩
  cwd := .named []
  homeVariable := none
  accountHome := "/"

/-- There the link is taken for the directory beside it, and `d` for itself. -/
theorem taken_as_shown_misnamed :
    misnamed.Valid ∧ (Path.mk [0x61, 0xFF]).bytes.head? ≠ some 0x7E ∧
      (Path.ofString "d").bytes.head? ≠ some 0x7E ∧
      misnamed.outputPath (some ⟨[0x61, 0xFF]⟩) = ⟨[0x61, 0xEF, 0xBF, 0xBD]⟩ ∧
      misnamed.outputPath (some (.ofString "d")) = .ofString "d" ∧
      misnamed.projectRoot (some ⟨[0x61, 0xFF]⟩) =
        misnamed.projectRoot (some ⟨[0x61, 0xEF, 0xBF, 0xBD]⟩) ∧
      ∃ trail, Path.ofString "/d" = .ofTrail trail ∧ misnamed.Resolves (.ofString "d") trail := by
  have hvalid : misnamed.Valid := ⟨by decide, _, rfl⟩
  have hlink : (Path.mk [0x61, 0xFF]).bytes.head? ≠ some 0x7E := by decide
  have hplain : (Path.ofString "d").bytes.head? ≠ some 0x7E := by decide
  have htaken := taken_as_shown hvalid hlink
  have hd := taken_as_shown hvalid hplain
  exact ⟨hvalid, hlink, hplain, htaken.output, hd.output_eq_iff.2 rfl, htaken.root,
    (hd.root_of_isWellFormed rfl _).1 rfl⟩

/-- The link leads to `d`. It names the file to write, but another would be written; given as the root,
another directory is the root, and without that one there would be none. -/
theorem taken_as_shown_elsewhere :
    misnamed.Valid ∧ (Path.mk [0x61, 0xFF]).bytes.head? ≠ some 0x7E ∧
      misnamed.follow ⟨[0x61, 0xFF]⟩ = .ok (.named [[0x64]], .directory []) ∧
      misnamed.canonical ⟨[0x61, 0xFF]⟩ = .ok (.ofTrail [[0x64]]) ∧
      misnamed.outputPath (some ⟨[0x61, 0xFF]⟩) ≠ ⟨[0x61, 0xFF]⟩ ∧
      misnamed.projectRoot (some ⟨[0x61, 0xFF]⟩) = .ok (.ofTrail [[0x61, 0xEF, 0xBF, 0xBD]]) ∧
      { misnamed with disk := misnamed.disk.erase [] [0x61, 0xEF, 0xBF, 0xBD] }.projectRoot
          (some ⟨[0x61, 0xFF]⟩) =
        .error (.setup (.unresolvedRoot ⟨[0x61, 0xEF, 0xBF, 0xBD]⟩ (.os .noEntry))) := by
  refine ⟨⟨by decide, _, rfl⟩, by decide, rfl, rfl, by decide, rfl, rfl⟩

end World

end SourceBundle
