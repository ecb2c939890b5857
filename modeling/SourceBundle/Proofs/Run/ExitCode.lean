import SourceBundle.Proofs.Disk.Resolving
import SourceBundle.Proofs.Run.Failure

/-!
The exit code of a run. Where the arguments are refused, or the disk is to blame, it is two; where the
root does not serve or standard output takes nothing, it is one. A root serves when it resolves to a
directory, and the current directory serves as one when its path is not too long for the system. Files
that cannot be read have no say in any of this.
-/

namespace SourceBundle.World

variable {w : World} {p root : Path} {text : String} {failure : Failure}
  {colours : Terminal.Colours} {sink : Sink} {arguments : List Bytes} {o : Options}
  {trail : List Name}

/-! ### The end of a run -/

/-- A failed writing is a failure of the disk. -/
theorem isIo_writeDocument (h : (w.writeDocument p text).2 = .error failure) :
    failure.isIo = true := by
  have hprepare : ∀ w' failure', w.prepareParent p = (w', .error failure') →
      failure'.isIo = true := by
    intro w' failure' hprepared
    unfold prepareParent at hprepared
    split at hprepared
    · cases hprepared
    split at hprepared
    · cases hprepared
    split at hprepared
    · cases hprepared
    · obtain ⟨-, heq⟩ := Prod.mk.inj hprepared
      obtain ⟨rfl⟩ := heq
      rfl
  unfold writeDocument at h
  split at h
  · next w' failure' hprepared =>
    obtain ⟨rfl⟩ := h
    exact hprepare w' _ hprepared
  · split at h
    · cases h
    · obtain ⟨rfl⟩ := h
      rfl

/-- The exit code of a run that saves is that of the writing, where it is confirmed. -/
theorem exitCode_saveDocument (w : World) (colours : Terminal.Colours) (notices : List Notice)
    (p : Path) (c : Collection) :
    ((w.writeDocument p c.render).2 = .ok () →
      (w.saveDocument colours .open notices p c).exitCode = 0) ∧
    ∀ failure, (w.writeDocument p c.render).2 = .error failure →
      (w.saveDocument colours .open notices p c).exitCode = 2 := by
  constructor
  · intro h
    rw [saveDocument_open h]
    rfl
  · intro failure h
    have hdisk := isIo_writeDocument h
    cases hwrite : w.writeDocument p c.render with
    | mk written result =>
      rw [hwrite] at h
      obtain rfl : result = .error failure := h
      unfold saveDocument
      simp only [hwrite, fail, RunError.exitCode, RunError.failure?, hdisk, if_true]

theorem exitCode_printDocument (notices : List Notice) :
    (w.printDocument sink notices text).exitCode = if text = "" ∨ sink = .open then 0 else 1 := by
  unfold printDocument
  by_cases h : text = "" ∨ sink = .open
  · rw [if_pos h, if_pos (by simpa using h)]
    rfl
  · rw [if_neg h, if_neg (by simpa using h)]
    rfl

/-- Neither the notices nor the failures have a say in the end of a run. -/
theorem exitCode_of_failures (notices notices' : List Notice) (p : Path) (files : List Entry)
    (failures failures' : List Failure) :
    (w.saveDocument colours sink notices p ⟨files, failures⟩).exitCode =
        (w.saveDocument colours sink notices' p ⟨files, failures'⟩).exitCode ∧
      (w.printDocument sink notices (Collection.mk files failures).render).exitCode =
        (w.printDocument sink notices' (Collection.mk files failures').render).exitCode := by
  constructor
  · have hsame : (Collection.mk files failures).render = (Collection.mk files failures').render := rfl
    unfold saveDocument
    simp only [hsame]
    cases w.writeDocument p (Collection.mk files failures').render with
    | mk written result =>
      cases result with
      | error failure => rfl
      | ok => cases sink <;> rfl
  · rw [exitCode_printDocument, exitCode_printDocument]
    rfl

/-- Without a root a run ends with two where the disk is to blame, and else with one. -/
theorem exitCode_of_no_root (h : Options.ofArguments arguments = .ok o)
    (hroot : w.projectRoot o.root = .error failure) :
    (w.run colours sink arguments).exitCode = if failure.isIo then 2 else 1 := by
  unfold run perform
  simp only [h, hroot]
  rfl

/-- A path that does not resolve to a directory ends the run with one. -/
theorem exitCode_of_unresolved (hw : w.Valid) (h : Options.ofArguments arguments = .ok o)
    (hpath : w.rootPath o.root = .ok p) (hunresolved : ∀ trail, ¬ w.Resolves p trail) :
    (w.run colours sink arguments).exitCode = 1 := by
  cases hroot : w.projectRoot o.root with
  | ok root =>
    obtain ⟨trail, -, hresolves⟩ := (projectRoot_eq_ok_iff hw hpath).1 hroot
    exact absurd hresolves (hunresolved trail)
  | error failure =>
    rw [exitCode_of_no_root h hroot, isIo_projectRoot hpath hroot]
    rfl

/-! ### The root of a run -/

/-- Whether a run collects below the directory at `trail`: its given root resolves to it, or none is
given and the current directory stands there and has a path that is not too long. -/
def RootedAt (w : World) (o : Options) (trail : List Name) : Prop :=
  match o.root with
  | some p => w.Resolves (w.expand p) trail
  | none => w.cwd = .named trail ∧ (Path.ofTrail trail).bytes.length < maxPath

theorem projectRoot_of_rootedAt (hw : w.Valid) (h : w.RootedAt o trail) :
    w.projectRoot o.root = .ok (.ofTrail trail) := by
  unfold RootedAt at h
  cases hgiven : o.root with
  | some p =>
    rw [hgiven] at h
    exact (projectRoot_eq_ok_iff hw rfl).2 ⟨trail, rfl, h⟩
  | none =>
    rw [hgiven] at h
    obtain ⟨hcwd, hshort⟩ := h
    obtain ⟨entries, hnode⟩ := hw.cwd
    rw [hcwd] at hnode
    have hpath : w.rootPath none = .ok (.ofTrail trail) := by
      rw [rootPath, Option.elim_none, currentDirectory, hcwd]
    have hresolves := (resolves_ofTrail_iff hw.disk hnode).2 ⟨rfl, hshort⟩
    exact (projectRoot_eq_ok_iff hw hpath).2 ⟨trail, rfl, hresolves⟩

/-! ### All exit codes -/

/-- How the exit code of a run comes about. -/
structure ExitCodes (w : World) (colours : Terminal.Colours) (sink : Sink)
    (arguments : List Bytes) : Prop where
  /-- The arguments are refused. -/
  refused : ∀ error, Options.ofArguments arguments = .error (.refused error) →
    (w.run colours sink arguments).exitCode = 2
  /-- Help or the version is asked for. -/
  informed : ∀ i, Options.ofArguments arguments = .error i → (∀ error, i ≠ .refused error) →
    (w.run colours sink arguments).exitCode = 0
  /-- A root is given that does not resolve to a directory. -/
  unresolved : ∀ o p, Options.ofArguments arguments = .ok o → o.root = some p →
    (∀ trail, ¬ w.Resolves (w.expand p) trail) → (w.run colours sink arguments).exitCode = 1
  /-- On a disk where no path is too long, to resolve to a directory is to lead to it, for a relative
  path from a current directory that is still there. -/
  plain : ¬ w.disk.TooDeep → ∀ p trail, w.Resolves (w.expand p) trail ↔
    w.LeadsTo (w.expand p) trail ∧ ∃ start, Disk.origin (w.expand p) w.cwd = .named start
  /-- No root is given, and the current directory is gone. -/
  removed : ∀ o above, Options.ofArguments arguments = .ok o → o.root = none →
    w.cwd = .removed above → (w.run colours sink arguments).exitCode = 2
  /-- No root is given, and the path of the current directory is too long for the system. -/
  tooDeep : ∀ o trail, Options.ofArguments arguments = .ok o → o.root = none →
    w.cwd = .named trail → maxPath ≤ (Path.ofTrail trail).bytes.length →
    (w.run colours sink arguments).exitCode = 1
  /-- The document is to be saved, and the confirmation can be printed. -/
  saved : ∀ o trail, Options.ofArguments arguments = .ok o → w.RootedAt o trail →
    o.stdout = false → sink = .open →
    ((w.writeDocument (w.outputPath o.output) (w.runCollection o (.ofTrail trail)).render).2 =
        .ok () ∧ (w.run colours sink arguments).exitCode = 0) ∨
      (∃ failure, (w.writeDocument (w.outputPath o.output)
          (w.runCollection o (.ofTrail trail)).render).2 = .error failure) ∧
        (w.run colours sink arguments).exitCode = 2
  /-- The document is to be printed; nothing is easily printed. -/
  printed : ∀ o trail, Options.ofArguments arguments = .ok o → w.RootedAt o trail →
    o.stdout = true →
    (w.run colours sink arguments).exitCode =
      if (w.runCollection o (.ofTrail trail)).render = "" ∨ sink = .open then 0 else 1
  /-- What was noted and which files could not be read has no say in the end of a run. -/
  unread : ∀ notices notices' p files failures failures',
    (w.saveDocument colours sink notices p ⟨files, failures⟩).exitCode =
        (w.saveDocument colours sink notices' p ⟨files, failures'⟩).exitCode ∧
      (w.printDocument sink notices (Collection.mk files failures).render).exitCode =
        (w.printDocument sink notices' (Collection.mk files failures').render).exitCode

/-- The exit code of every run comes about in this way. -/
theorem exit_codes (w : World) (colours : Terminal.Colours) (sink : Sink) (arguments : List Bytes)
    (hw : w.Valid) : w.ExitCodes colours sink arguments := by
  refine ⟨?_, ?_, ?_, ?_, ?_, ?_, ?_, ?_, ?_⟩
  · intro error hrefused
    unfold run
    rw [hrefused]
    rfl
  · intro i hinformed hnot
    unfold run
    rw [hinformed]
    cases i with
    | help full => rfl
    | version => rfl
    | refused error => exact absurd rfl (hnot error)
  · intro o p harguments hgiven hunresolved
    exact exitCode_of_unresolved hw harguments (by rw [hgiven]; rfl) hunresolved
  · intro hshort p trail
    exact resolves_iff_leadsTo hshort
  · intro o above harguments hgiven hcwd
    have hroot : w.projectRoot o.root = .error (.io (.os .noEntry)) := by
      unfold projectRoot
      rw [hgiven, Option.elim_none, currentDirectory, hcwd]
    rw [exitCode_of_no_root harguments hroot]
    rfl
  · intro o trail harguments hgiven hcwd hlong
    obtain ⟨entries, hnode⟩ := hw.cwd
    rw [hcwd] at hnode
    have hpath : w.rootPath o.root = .ok (.ofTrail trail) := by
      rw [hgiven, rootPath, Option.elim_none, currentDirectory, hcwd]
    refine exitCode_of_unresolved hw harguments hpath ?_
    intro there hresolves
    obtain ⟨-, hshort⟩ := (resolves_ofTrail_iff hw.disk hnode).1 hresolves
    exact Nat.not_lt.2 hlong hshort
  · intro o trail harguments hrooted hstdout hsink
    rw [run_eq harguments (projectRoot_of_rootedAt hw hrooted), hstdout, if_neg Bool.false_ne_true,
      hsink]
    obtain ⟨hok, herror⟩ := exitCode_saveDocument w colours (w.runNotices o (.ofTrail trail))
      (w.outputPath o.output) (w.runCollection o (.ofTrail trail))
    cases hwrite : (w.writeDocument (w.outputPath o.output)
      (w.runCollection o (.ofTrail trail)).render).2 with
    | ok => exact .inl ⟨rfl, hok hwrite⟩
    | error failure => exact .inr ⟨⟨failure, rfl⟩, herror failure hwrite⟩
  · intro o trail harguments hrooted hstdout
    rw [run_eq harguments (projectRoot_of_rootedAt hw hrooted), if_pos hstdout,
      exitCode_printDocument]
  · exact exitCode_of_failures

/-- The small disk after its current directory was taken away. -/
def uprooted : World := { sample with cwd := .removed [] }

/-- On the small disk: an unknown argument, a root that leads nowhere, a current directory that is
gone, a file below a file to write, and a document to print. -/
theorem exit_codes_sample :
    sample.Valid ∧ uprooted.Valid ∧
      (sample.run ⟨false, false⟩ .open [Bytes.ofString "a"]).exitCode = 2 ∧
      (∀ trail, ¬ sample.Resolves (sample.expand (.ofString "/none")) trail) ∧
      (sample.run ⟨false, false⟩ .open [Bytes.ofString "--root=/none"]).exitCode = 1 ∧
      (uprooted.run ⟨false, false⟩ .open [Bytes.ofString "--stdout"]).exitCode = 2 ∧
      sample.RootedAt unwritableOptions [[0x70]] ∧
      (sample.run ⟨false, false⟩ .open [Bytes.ofString "--output=n/s/../../b.c/x"]).exitCode = 2 ∧
      (sample.run ⟨false, false⟩ .open [Bytes.ofString "--stdout"]).exitCode = 0 := by
  have hsample : sample.Valid := ⟨Disk.valid_sample, Disk.project, rfl⟩
  have huprooted : uprooted.Valid := ⟨Disk.valid_sample, [], rfl⟩
  obtain ⟨error, hrefused⟩ : ∃ error, Options.ofArguments [Bytes.ofString "a"] =
      .error (.refused error) := ⟨_, rfl⟩
  have hnowhere : ∀ trail, ¬ sample.Resolves (sample.expand (.ofString "/none")) trail := by
    intro trail hresolves
    have hroot : sample.projectRoot (some (.ofString "/none")) = .ok (.ofTrail trail) :=
      (projectRoot_eq_ok_iff hsample rfl).2 ⟨trail, rfl, hresolves⟩
    cases hroot
  have hgiven : Options.ofArguments [Bytes.ofString "--root=/none"] =
      .ok { unwritableOptions with root := some (.ofString "/none"), output := none } := rfl
  have hprinting : Options.ofArguments [Bytes.ofString "--stdout"] = .ok printingOptions := rfl
  have hunwritable : Options.ofArguments [Bytes.ofString "--output=n/s/../../b.c/x"] =
      .ok unwritableOptions := rfl
  have hrooted : sample.RootedAt unwritableOptions [[0x70]] := ⟨rfl, by decide⟩
  have hwritten := (exit_codes sample ⟨false, false⟩ .open _ hsample).saved _ _ hunwritable hrooted
    rfl rfl
  have hfails : (sample.writeDocument (.ofString "n/s/../../b.c/x")
      (sample.runCollection unwritableOptions (.ofTrail [[0x70]])).render).2 =
        .error (.write (.ofString "n/s/../../b.c") (.os .alreadyExists)) := rfl
  refine ⟨hsample, huprooted, (exit_codes sample _ _ _ hsample).refused error hrefused, hnowhere,
    (exit_codes sample _ _ _ hsample).unresolved _ _ hgiven rfl hnowhere,
    (exit_codes uprooted _ _ _ huprooted).removed _ _ hprinting rfl rfl, hrooted, ?_, ?_⟩
  · rcases hwritten with ⟨hok, -⟩ | ⟨-, hcode⟩
    · cases hfails.symm.trans hok
    · exact hcode
  · rw [(exit_codes sample _ _ _ hsample).printed _ [[0x70]] hprinting hrooted rfl]
    exact if_pos (.inr rfl)

/-- In a directory that exists, but whose path is too long for the system, a run that is given no root
ends with one, though it could print its document. -/
theorem exit_code_of_deep_directory :
    (deep 16).Valid ∧ (deep 16).disk.node? (deep 16).cwd = some (.directory []) ∧
      Options.ofArguments [Bytes.ofString "--stdout"] = .ok printingOptions ∧
      printingOptions.root = none ∧ printingOptions.stdout = true ∧
      ((deep 16).run ⟨false, false⟩ .open [Bytes.ofString "--stdout"]).exitCode = 1 := by
  have hprinting : Options.ofArguments [Bytes.ofString "--stdout"] = .ok printingOptions := rfl
  have hunresolved : ∀ trail,
      ¬ (deep 16).Resolves (.ofTrail (List.replicate 16 longName)) trail := by
    intro trail hresolves
    obtain ⟨-, hshort⟩ := (resolves_ofTrail_iff (valid_deep 16).disk (node?_deep 16)).1 hresolves
    rw [length_ofTrail_deep] at hshort
    exact absurd hshort (by decide)
  exact ⟨valid_deep 16, node?_deep 16, hprinting, rfl, rfl,
    exitCode_of_unresolved (valid_deep 16) hprinting rfl hunresolved⟩

end SourceBundle.World
