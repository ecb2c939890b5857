import SourceBundle.Proofs.Disk.Paving
import SourceBundle.Proofs.Text.Utf8

/-!
Which paths a document can be written to on a disk without links, and what the writing leaves. The way
must be clear, and the path no directory: then the directories that are missing are made and the file is
placed, and nothing else changes. What fails leaves the disk as it was, but for a path whose last name
holds a NUL: that is found out only when the directories above it are made.
-/

namespace SourceBundle

namespace World

variable {w : World} {p parent : Path} {here start front dir : List Name} {last : Name}
  {entries : Listing} {text : String} {content : Bytes}

/-! ### The file -/

/-- A file that is written into a directory takes the place of a file or of nothing. -/
theorem writeFile_into (hlinks : w.disk.Linkless) (hp : p.Fits) (hnul : (0 : UInt8) ∉ p.bytes)
    (hsteps : p.steps = front ++ [last]) (horigin : Disk.origin p w.cwd = .named start)
    (hinto : w.disk.node? (.named (start ++ front)) = some (.directory entries)) :
    w.writeFile p content =
      match w.disk.node? (.named (start ++ front ++ [last])) with
      | none => .ok { w with disk := w.disk.put (start ++ front) last (.file content) }
      | some (.file _) => .ok { w with disk := w.disk.put (start ++ front) last (.file content) }
      | some (.device .full) => if content.isEmpty then .ok w else .error (.os .noSpace)
      | some (.device .null) => .ok w
      | some _ => .error (.os .isDirectory) := by
  have hne : p.steps ≠ [] := by simp [hsteps]
  have hslash := hp.plain.endsInSlash_of_steps_ne_nil hne
  have hrefusal := hp.refusal? hnul (Path.isEmpty_of_steps_ne_nil hne)
  obtain ⟨_, hstart⟩ := Disk.directory_of_append hinto
  have hcomes := hlinks.comes hstart (by rw [← hsteps]; exact hp.valid hnul) true maxLinks
  rw [← hsteps, ← horigin] at hcomes
  obtain ⟨hfound, hvacant⟩ :=
    w.disk.approach_iff maxLinks (Disk.origin p w.cwd) p.steps p.endsInSlash
  rw [hslash] at hfound hvacant
  unfold writeFile
  rw [hrefusal, hslash]
  generalize hgoal : w.disk.chase true maxLinks (Disk.origin p w.cwd) p.steps false = goal at hcomes
  -- the directory stands, so the way to the name is neither missing nor barred
  cases hcomes with
  | @standing node stands =>
    simp only [(hfound _ _).2 ⟨rfl, hgoal⟩, stands]
    cases node with
    | file old => simp only [overwrite, List.getLast?_concat, List.dropLast_concat]
    | device kind => cases kind <;> rfl
    | _ => rfl
  | free into unlisted =>
    rw [(hvacant _ _ _).2 ⟨rfl, hgoal⟩, Disk.node?_listed into, unlisted]
    rfl
  | missing absent _ =>
    rw [hinto] at absent
    cases absent
  | barred barred => exact absurd (Disk.clear_of_directory hinto) barred

theorem writeFile_nul (hnul : (0 : UInt8) ∈ p.bytes) :
    w.writeFile p content = .error .nulInPath := by
  simp [writeFile, Path.refusal?, hnul]

/-! ### The directories above it -/

/-- To prepare for a path is to ensure the path above it. -/
theorem prepareParent_eq (hp : p.Fits) (hparent : p.parent? = some parent)
    (habove : parent.Above p) :
    w.prepareParent p =
      match w.ensureDirectories parent with
      | (w, .ok ()) => (w, .ok ())
      | (w, .error cause) => (w, .error (.write parent cause)) := by
  unfold prepareParent
  rw [hparent]
  dsimp only
  split
  · next hempty =>
    rw [ensureDirectories, Path.ancestors,
      ensureChain_of_no_steps (habove.fits hp) (Path.steps_of_isEmpty hempty)]
  · rfl

/-- A path with a NUL is refused before anything is made. -/
theorem ensureDirectories_nul (hnul : (0 : UInt8) ∈ p.bytes) :
    w.ensureDirectories p = (w, .error .nulInPath) := by
  obtain ⟨above, habove⟩ := p.exists_climb_eq p.bytes.length
  have hempty : p.isEmpty = false := by
    cases hempty : p.isEmpty with
    | false => rfl
    | true =>
      rw [List.isEmpty_iff.1 hempty] at hnul
      cases hnul
  have hensure : w.ensureDirectory p = .error .nulInPath := by
    simp [ensureDirectory, makeDirectory, createNode, Path.refusal?, hnul]
  rw [ensureDirectories, Path.ancestors, habove, ensureChain, hempty, hensure]
  simp

/-! ### The document -/

/-- What can become of a text that is to be written under a name, the path above it being `parent`. -/
inductive Writing (w : World) (p parent : Path) (text : String) (dir : List Name) (last : Name) :
    World × Except Failure Unit → Prop
  | nulAbove (nul : (0 : UInt8) ∈ parent.bytes) :
      Writing w p parent text dir last (w, .error (.write parent .nulInPath))
  | barred {cause : IoError} (nul : (0 : UInt8) ∉ parent.bytes) (barred : ¬ w.disk.Clear dir) :
      Writing w p parent text dir last (w, .error (.write parent cause))
  | nulHere (above : (0 : UInt8) ∉ parent.bytes) (nul : (0 : UInt8) ∈ p.bytes)
      (stands : ∃ entries, w.disk.node? (.named dir) = some (.directory entries)) :
      Writing w p parent text dir last (w, .error (.write p .nulInPath))
  | nulBelow {disk : Disk} (above : (0 : UInt8) ∉ parent.bytes) (nul : (0 : UInt8) ∈ p.bytes)
      (absent : w.disk.node? (.named dir) = none) (clear : w.disk.Clear dir)
      (placed : w.disk.Placed disk dir (.directory [])) :
      Writing w p parent text dir last ({ w with disk := disk }, .error (.write p .nulInPath))
  | placed {disk : Disk} (nul : (0 : UInt8) ∉ p.bytes) (clear : w.disk.Clear dir)
      (free : ∀ node, w.disk.node? (.named (dir ++ [last])) = some node → ∃ old, node = .file old)
      (placed : w.disk.Placed disk (dir ++ [last]) (.file (Bytes.ofString text))) :
      Writing w p parent text dir last ({ w with disk := disk }, .ok ())
  | taken {kind : Device} (nul : (0 : UInt8) ∉ p.bytes) (clear : w.disk.Clear dir)
      (device : w.disk.node? (.named (dir ++ [last])) = some (.device kind))
      (full : kind = .full → text = "") : Writing w p parent text dir last (w, .ok ())
  | refused {node : Node} {cause : IoError} (nul : (0 : UInt8) ∉ p.bytes) (clear : w.disk.Clear dir)
      (stands : w.disk.node? (.named (dir ++ [last])) = some node)
      (why : node.isDirectory = true ∨ node = .device .full ∧ text ≠ "") :
      Writing w p parent text dir last (w, .error (.write p cause))

/-- What becomes of a written text, the directory above its path being in place. -/
theorem writing_into (hlinks : w.disk.Linkless) (hp : p.Fits) (hnul : (0 : UInt8) ∉ p.bytes)
    (hsteps : p.steps = front ++ [last]) (horigin : Disk.origin p w.cwd = .named start)
    (hinto : w.disk.node? (.named (start ++ front)) = some (.directory entries)) :
    w.Writing p parent text (start ++ front) last
      (match w.writeFile p (Bytes.ofString text) with
        | .ok w => (w, .ok ())
        | .error cause => (w, .error (.write p cause))) := by
  have hclear := Disk.clear_of_directory hinto
  have hplaced : w.disk.Placed (w.disk.put (start ++ front) last (.file (Bytes.ofString text)))
      (start ++ front ++ [last]) (.file (Bytes.ofString text)) := Disk.placed_put hinto _
  rw [writeFile_into hlinks hp hnul hsteps horigin hinto]
  cases hthere : w.disk.node? (.named (start ++ front ++ [last])) with
  | none =>
    refine .placed hnul hclear ?_ hplaced
    intro node hnode
    rw [hthere] at hnode
    cases hnode
  | some node =>
    cases node with
    | file old =>
      refine .placed hnul hclear ?_ hplaced
      intro node hnode
      exact ⟨old, Option.some.inj (hnode.symm.trans hthere)⟩
    | directory listed => exact .refused hnul hclear hthere (.inl rfl)
    | link target => exact absurd hthere (hlinks _ target)
    | device kind =>
      cases kind with
      | null => exact .taken hnul hclear hthere (by simp)
      | full =>
        dsimp only
        by_cases htext : text = ""
        · rw [htext]
          exact .taken hnul hclear hthere fun _ => rfl
        · rw [if_neg fun hempty => htext (Utf8.ofString_eq_nil_iff.1 (List.isEmpty_iff.1 hempty))]
          exact .refused hnul hclear hthere (.inr ⟨rfl, htext⟩)

/-- A document is written in one of these ways. -/
theorem writing_writeDocument (hlinks : w.disk.Linkless) (hp : p.Fits)
    (hparent : p.parent? = some parent) (habove : parent.Above p)
    (hsteps : p.steps = front ++ [last]) (horigin : Disk.origin p w.cwd = .named start)
    (hstart : w.disk.node? (.named start) = some (.directory entries)) :
    w.Writing p parent text (start ++ front) last (w.writeDocument p text) := by
  have hfront : parent.steps = front := by rw [habove.steps, hsteps, List.dropLast_concat]
  have horigin' : Disk.origin parent w.cwd = .named start := by
    rw [← horigin, Disk.origin, Disk.origin, habove.isAbsolute]
  unfold writeDocument
  rw [prepareParent_eq hp hparent habove]
  by_cases hnulAbove : (0 : UInt8) ∈ parent.bytes
  · rw [ensureDirectories_nul hnulAbove]
    exact .nulAbove hnulAbove
  have hpaves := paves_ensureChain hlinks (habove.fits hp) hnulAbove horigin' hstart (Nat.le_refl _)
  rw [hfront] at hpaves
  unfold ensureDirectories Path.ancestors
  generalize w.ensureChain (parent.climb parent.bytes.length) = prepared at hpaves
  cases hpaves with
  | barred barred => exact .barred hnulAbove barred
  | standing stands =>
    dsimp only
    by_cases hnul : (0 : UInt8) ∈ p.bytes
    · rw [writeFile_nul hnul]
      exact .nulHere hnulAbove hnul ⟨_, stands⟩
    · exact writing_into hlinks hp hnul hsteps horigin stands
  | @made disk absent clear placed =>
    dsimp only
    by_cases hnul : (0 : UInt8) ∈ p.bytes
    · rw [writeFile_nul hnul]
      exact .nulBelow hnulAbove hnul absent clear placed
    · -- the directory was made just now, so it lists nothing under the name
      have hnone : disk.node? (.named (start ++ front ++ [last])) = none :=
        Disk.node?_listed placed.placed last
      rw [writeFile_into (w := { w with disk := disk }) (placed.linkless hlinks) hp hnul hsteps horigin
        placed.placed, hnone]
      refine .placed hnul clear ?_ (placed.put_made absent _)
      rw [Disk.node?_append_of_none absent]
      intro node hnode
      cases hnode

/-- What a writing comes to, told by the directory `dir` above the path and the name in it. Disks of
directories and files are meant; where a device stands, it keeps nothing of the text, and all stays as it
was. -/
structure WritesAt (w : World) (p parent : Path) (text : String) (dir : List Name) (last : Name)
    (result : World × Except Failure Unit) : Prop where
  /-- It succeeds when nothing but directories stands above the path and no directory at it, no NUL is
  in the path, and no byte goes to the device that refuses all. -/
  ok_iff : result.2 = .ok () ↔
    w.disk.Clear dir ∧
      (∀ entries, w.disk.node? (.named (dir ++ [last])) ≠ some (.directory entries)) ∧
      (0 : UInt8) ∉ p.bytes ∧
      (w.disk.node? (.named (dir ++ [last])) = some (.device .full) → text = "")
  /-- Then the file is placed with the directories that were missing above it. -/
  placed : result.2 = .ok () →
    (∀ kind, w.disk.node? (.named (dir ++ [last])) ≠ some (.device kind)) →
    ∃ disk, result.1 = { w with disk := disk } ∧
      w.disk.Placed disk (dir ++ [last]) (.file (Bytes.ofString text))
  /-- A device stays as it is, and so does all else. -/
  device : result.2 = .ok () →
    ∀ kind, w.disk.node? (.named (dir ++ [last])) = some (.device kind) → result.1 = w
  /-- A failure leaves everything as it was, unless a NUL is found out after directories were made. -/
  unchanged : ∀ failure, result.2 = .error failure →
    ((0 : UInt8) ∈ p.bytes → (0 : UInt8) ∈ parent.bytes ∨ ¬ w.disk.Clear dir ∨
      w.disk.node? (.named dir) ≠ none) → result.1 = w
  /-- A NUL in the last name alone is found out after the directories above it were made. -/
  paved : (0 : UInt8) ∈ p.bytes → (0 : UInt8) ∉ parent.bytes → w.disk.Clear dir →
    w.disk.node? (.named dir) = none →
    ∃ disk, result.1 = { w with disk := disk } ∧ w.disk.Placed disk dir (.directory [])
  /-- The failure tells of the path above where that is refused or the way to it is not clear. -/
  failure_above : (0 : UInt8) ∈ parent.bytes ∨ ¬ w.disk.Clear dir →
    ∃ cause, result.2 = .error (.write parent cause)
  /-- Any other failure tells of the path itself. -/
  failure_here : ∀ failure, result.2 = .error failure → (0 : UInt8) ∉ parent.bytes →
    w.disk.Clear dir → ∃ cause, failure = .write p cause

/-- A writing succeeds exactly when nothing is in its way. -/
theorem Writing.ok_iff {result : World × Except Failure Unit}
    (h : w.Writing p parent text dir last result)
    (hbefore : (0 : UInt8) ∈ parent.bytes → (0 : UInt8) ∈ p.bytes) :
    result.2 = .ok () ↔
      w.disk.Clear dir ∧
        (∀ entries, w.disk.node? (.named (dir ++ [last])) ≠ some (.directory entries)) ∧
        (0 : UInt8) ∉ p.bytes ∧
        (w.disk.node? (.named (dir ++ [last])) = some (.device .full) → text = "") := by
  constructor
  · intro hok
    cases h with
    | placed nul clear free _ =>
      refine ⟨clear, ?_, nul, ?_⟩
      · intro entries hdirectory
        obtain ⟨old, hold⟩ := free _ hdirectory
        cases hold
      · intro hfull
        obtain ⟨old, hold⟩ := free _ hfull
        cases hold
    | taken nul clear device full =>
      rw [device]
      refine ⟨clear, by simp, nul, ?_⟩
      rintro ⟨⟩
      exact full rfl
    | _ => cases hok
  · rintro ⟨hclear, hdirectory, hnul, hfull⟩
    cases h with
    | placed => rfl
    | taken => rfl
    | nulAbove nul => exact absurd (hbefore nul) hnul
    | barred _ barred => exact absurd hclear barred
    | nulHere _ nul => exact absurd nul hnul
    | nulBelow _ nul => exact absurd nul hnul
    | @refused node _ _ _ stands why =>
      rcases why with hthere | ⟨rfl, htext⟩
      · rw [Node.eq_directory hthere] at stands
        exact absurd stands (hdirectory _)
      · exact absurd (hfull stands) htext

/-- A writing that fails tells of the path above where that is refused or barred, and else of the path
itself. -/
theorem Writing.failure {result : World × Except Failure Unit}
    (h : w.Writing p parent text dir last result)
    (hbefore : (0 : UInt8) ∈ parent.bytes → (0 : UInt8) ∈ p.bytes) :
    ((0 : UInt8) ∈ parent.bytes ∨ ¬ w.disk.Clear dir →
      ∃ cause, result.2 = .error (.write parent cause)) ∧
    ∀ failure, result.2 = .error failure → (0 : UInt8) ∉ parent.bytes → w.disk.Clear dir →
      ∃ cause, failure = .write p cause := by
  constructor
  · intro hwhy
    have hbarred : (0 : UInt8) ∉ parent.bytes → ¬ w.disk.Clear dir :=
      fun habove => hwhy.resolve_left habove
    cases h with
    | nulAbove => exact ⟨_, rfl⟩
    | barred => exact ⟨_, rfl⟩
    | nulHere above _ stands =>
      obtain ⟨entries, hentries⟩ := stands
      exact absurd (Disk.clear_of_directory hentries) (hbarred above)
    | nulBelow above _ _ clear => exact absurd clear (hbarred above)
    | placed nul clear => exact absurd clear (hbarred (mt hbefore nul))
    | taken nul clear => exact absurd clear (hbarred (mt hbefore nul))
    | refused nul clear => exact absurd clear (hbarred (mt hbefore nul))
  · intro failure hfailure habove hclear
    cases h with
    | nulAbove nul => exact absurd nul habove
    | barred _ barred => exact absurd hclear barred
    | placed => cases hfailure
    | taken => cases hfailure
    | nulHere => exact ⟨_, (Except.error.inj hfailure).symm⟩
    | nulBelow => exact ⟨_, (Except.error.inj hfailure).symm⟩
    | refused => exact ⟨_, (Except.error.inj hfailure).symm⟩

theorem Writing.writesAt {result : World × Except Failure Unit}
    (h : w.Writing p parent text dir last result)
    (hbefore : (0 : UInt8) ∈ parent.bytes → (0 : UInt8) ∈ p.bytes) :
    w.WritesAt p parent text dir last result := by
  obtain ⟨hfailureAbove, hfailureHere⟩ := h.failure hbefore
  refine ⟨h.ok_iff hbefore, ?_, ?_, ?_, ?_, hfailureAbove, hfailureHere⟩
  · intro hok hdevice
    cases h with
    | placed _ _ _ placed => exact ⟨_, rfl, placed⟩
    | taken _ _ device => exact absurd device (hdevice _)
    | _ => cases hok
  · intro hok kind hkind
    cases h with
    | placed _ _ free =>
      obtain ⟨old, hold⟩ := free _ hkind
      cases hold
    | taken => rfl
    | _ => cases hok
  · intro failure hfailure hwhy
    cases h with
    | placed => cases hfailure
    | nulBelow above nul absent clear =>
      rcases hwhy nul with hnul | hbarred | hstands
      · exact absurd hnul above
      · exact absurd clear hbarred
      · exact absurd absent hstands
    | _ => rfl
  · intro hnul habove hclear habsent
    cases h with
    | nulAbove nul => exact absurd nul habove
    | barred _ barred => exact absurd hclear barred
    | nulHere _ _ stands =>
      obtain ⟨entries, hentries⟩ := stands
      rw [habsent] at hentries
      cases hentries
    | nulBelow _ _ _ _ placed => exact ⟨_, rfl, placed⟩
    | placed nul => exact absurd hnul nul
    | taken nul => exact absurd hnul nul
    | refused nul => exact absurd hnul nul

/-- On a disk without links every path of names alone is written to in this way. -/
theorem writes_at (w : World) (p : Path) (text : String) (hlinks : w.disk.Linkless)
    (hcwd : w.cwd = .named here)
    (hhere : w.disk.node? (.named here) = some (.directory entries)) (hp : p.Fits)
    (hsteps : p.steps = front ++ [last]) :
    ∃ parent, p.parent? = some parent ∧
      w.WritesAt p parent text ((if p.isAbsolute then [] else here) ++ front) last
        (w.writeDocument p text) := by
  obtain ⟨parent, hparent, habove⟩ := hp.plain.parent? (by simp [hsteps])
  have horigin : Disk.origin p w.cwd = .named (if p.isAbsolute then [] else here) := by
    rw [hcwd, Disk.origin]
    split <;> rfl
  obtain ⟨_, hstart⟩ : ∃ entries, w.disk.node? (.named (if p.isAbsolute then [] else here)) =
      some (.directory entries) := by
    split
    · exact ⟨w.disk.entries, rfl⟩
    · exact ⟨entries, hhere⟩
  have hwriting : w.Writing p parent text ((if p.isAbsolute then [] else here) ++ front) last
      (w.writeDocument p text) :=
    writing_writeDocument hlinks hp hparent habove hsteps horigin hstart
  exact ⟨parent, hparent, hwriting.writesAt fun hnul => habove.before.subset hnul⟩

/-- A disk that lists files and devices alone has no links. -/
theorem linkless_of_leaves (hleaf : ∀ e ∈ entries, e.2.isDirectory = false)
    (hlink : ∀ e ∈ entries, ∀ target, e.2 ≠ .link target) : (Disk.mk entries).Linkless := by
  rintro trail target hstands
  cases trail with
  | nil => cases hstands
  | cons name rest =>
    obtain ⟨_, child, hroot, hfind, hrest⟩ := Node.at?_cons_eq_some hstands
    obtain rfl := Node.directory.inj hroot
    have hmem := Listing.mem_of_find? hfind
    cases rest with
    | nil => exact hlink _ hmem target (Option.some.inj hrest)
    | cons next more =>
      obtain ⟨_, _, rfl, -⟩ := Node.at?_cons_eq_some hrest
      cases hleaf _ hmem

/-- A disk that holds a file, and the device that refuses every byte. -/
def shelf : World where
  disk := ⟨[([0x6F, 0x6C, 0x64], .file [0x31, 0x32, 0x33]),
    ([0x66, 0x75, 0x6C, 0x6C], .device .full)]⟩
  cwd := .named []
  homeVariable := none
  accountHome := "/"

theorem linkless_shelf : shelf.disk.Linkless :=
  linkless_of_leaves (by simp [Node.isDirectory]) (by simp)

/-- On that disk the file gets less than it held, a new file gets two directories above it, and below
the file nothing is written. -/
theorem writes_at_shelf :
    shelf.disk.Linkless ∧ shelf.cwd = .named [] ∧
      shelf.disk.node? (.named []) = some (.directory shelf.disk.entries) ∧
      (Path.ofString "old").Fits ∧ (Path.ofString "n/s/new").Fits ∧ (Path.ofString "old/new").Fits ∧
      (shelf.writeDocument (.ofString "old") "2").2 = .ok () ∧
      (∃ disk, (shelf.writeDocument (.ofString "old") "2").1 = { shelf with disk := disk } ∧
        shelf.disk.Placed disk [[0x6F, 0x6C, 0x64]] (.file [0x32])) ∧
      (shelf.writeDocument (.ofString "n/s/new") "2").2 = .ok () ∧
      (∃ disk, (shelf.writeDocument (.ofString "n/s/new") "2").1 = { shelf with disk := disk } ∧
        shelf.disk.Placed disk [[0x6E], [0x73], [0x6E, 0x65, 0x77]] (.file [0x32])) ∧
      (∃ cause, (shelf.writeDocument (.ofString "old/new") "2").2 =
        .error (.write (.ofString "old") cause)) ∧
      (shelf.writeDocument (.ofString "old/new") "2").1 = shelf := by
  have hroot : shelf.disk.node? (.named []) = some (.directory shelf.disk.entries) := rfl
  have hold : (Path.ofString "old").Fits := ⟨⟨by decide, by decide⟩, by decide, by decide⟩
  have hnew : (Path.ofString "n/s/new").Fits := ⟨⟨by decide, by decide⟩, by decide, by decide⟩
  have hbelow : (Path.ofString "old/new").Fits := ⟨⟨by decide, by decide⟩, by decide, by decide⟩
  obtain ⟨_, -, hwrites⟩ := writes_at shelf (.ofString "old") "2" linkless_shelf rfl hroot hold
    (show (Path.ofString "old").steps = [] ++ [[0x6F, 0x6C, 0x64]] from rfl)
  obtain ⟨_, -, hwritesNew⟩ := writes_at shelf (.ofString "n/s/new") "2" linkless_shelf rfl hroot hnew
    (show (Path.ofString "n/s/new").steps = [[0x6E], [0x73]] ++ [[0x6E, 0x65, 0x77]] from rfl)
  obtain ⟨above, habove, hwritesBelow⟩ := writes_at shelf (.ofString "old/new") "2" linkless_shelf rfl
    hroot hbelow
    (show (Path.ofString "old/new").steps = [[0x6F, 0x6C, 0x64]] ++ [[0x6E, 0x65, 0x77]] from rfl)
  obtain rfl : Path.ofString "old" = above := Option.some.inj habove
  have hok : (shelf.writeDocument (.ofString "old") "2").2 = .ok () := rfl
  have hokNew : (shelf.writeDocument (.ofString "n/s/new") "2").2 = .ok () := rfl
  have hbarred : ¬ shelf.disk.Clear [[0x6F, 0x6C, 0x64]] := by
    intro hclear
    cases hclear _ (List.prefix_refl _) _ rfl
  obtain ⟨cause, hcause⟩ := hwritesBelow.failure_above (.inr hbarred)
  exact ⟨linkless_shelf, rfl, hroot, hold, hnew, hbelow, hok,
    hwrites.placed hok (by intro _ h; cases h), hokNew,
    hwritesNew.placed hokNew (by intro _ h; cases h), ⟨cause, hcause⟩,
    hwritesBelow.unchanged _ hcause fun _ => .inr (.inl hbarred)⟩

/-- Two paths with nothing in the way that cannot be written to: one with a NUL in its last name, for
which the directory above is made all the same, and the device that refuses every byte. -/
theorem writes_at_refused :
    shelf.disk.Linkless ∧ shelf.cwd = .named [] ∧
      shelf.disk.node? (.named []) = some (.directory shelf.disk.entries) ∧
      (Path.mk [0x6E, 0x2F, 0x61, 0x00]).Fits ∧
      (Path.mk [0x6E, 0x2F, 0x61, 0x00]).steps = [[0x6E], [0x61, 0x00]] ∧
      shelf.disk.Clear [[0x6E]] ∧ shelf.disk.node? (.named [[0x6E], [0x61, 0x00]]) = none ∧
      (shelf.writeDocument ⟨[0x6E, 0x2F, 0x61, 0x00]⟩ "2").2 =
        .error (.write ⟨[0x6E, 0x2F, 0x61, 0x00]⟩ .nulInPath) ∧
      shelf.disk.node? (.named [[0x6E]]) = none ∧
      (shelf.writeDocument ⟨[0x6E, 0x2F, 0x61, 0x00]⟩ "2").1.disk.node? (.named [[0x6E]]) =
        some (.directory []) ∧
      (Path.ofString "full").Fits ∧ (Path.ofString "full").steps = [[0x66, 0x75, 0x6C, 0x6C]] ∧
      shelf.disk.Clear [] ∧
      shelf.disk.node? (.named [[0x66, 0x75, 0x6C, 0x6C]]) = some (.device .full) ∧
      (shelf.writeDocument (.ofString "full") "2").2 =
        .error (.write (.ofString "full") (.os .noSpace)) := by
  have hroot : shelf.disk.Clear [] := Disk.clear_of_directory rfl
  have hnul : (Path.mk [0x6E, 0x2F, 0x61, 0x00]).Fits :=
    ⟨⟨by decide, by decide⟩, by decide, by decide⟩
  have hfull : (Path.ofString "full").Fits := ⟨⟨by decide, by decide⟩, by decide, by decide⟩
  exact ⟨linkless_shelf, rfl, rfl, hnul, rfl, hroot.concat rfl, rfl, rfl, rfl, rfl, hfull, rfl, hroot,
    rfl, rfl⟩

end World

end SourceBundle
