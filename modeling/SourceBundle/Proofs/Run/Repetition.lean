import SourceBundle.Proofs.Collection.Grown
import SourceBundle.Proofs.Disk.Rewriting
import SourceBundle.Proofs.Run.ExitCode

/-!
A run repeated. A run that saved its document has changed the tree that it collects from: there the
document stands now, and maybe new directories on the way to it. On a disk without links none of this
reaches a sorted collection, as long as no rule selects the document by its name. So the next run
collects the same files, meets the same failures and writes the same document, which changes nothing
any more. Only where the first run made a directory whose path is too long for the system does the
next one have something to add: it warns of that directory.
-/

namespace SourceBundle

namespace World

variable {w w' : World} {config : Config} {colours : Terminal.Colours} {sink : Sink}
  {arguments : List Bytes} {o : Options} {root : Path} {trail here : List Name} {entries : Listing}
  {named : Name → Prop} {β : Type} {f : Visit → Option β}

/-! ### The tree that a run leaves -/

/-- No directory that is new below `trail` has a path that is too long to list it, but for those that
a walk does not come to: below a directory that the rules leave out, or below one whose own path is
too long. -/
def ListsNew (w w' : World) (rules : Exclusion) (trail : List Name) : Prop :=
  ∀ dirs name sub, w.disk.node? (.named (trail ++ (dirs ++ [name]))) = none →
    w'.disk.node? (.named (trail ++ (dirs ++ [name]))) = some (.directory sub) →
    (∀ dir ∈ dirs ++ [name], rules.excludes (Utf8.replaceBroken dir) = false) →
    (Path.ofTrail (trail ++ dirs)).bytes.length < maxPath →
    (Path.ofTrail (trail ++ (dirs ++ [name]))).bytes.length < maxPath

/-- Where all names of a disk together stay below the limit, no new path is too long. -/
theorem listsNew_of_reach {rules : Exclusion} (hdisk : w'.disk.Valid)
    (h : 1 + w'.disk.root.reach < maxPath) : w.ListsNew w' rules trail := by
  intro dirs name sub _ hnew _ _
  have hlength := Path.length_joinAll_le ⟨[Bytes.slash]⟩ hnew
  rw [← Path.ofTrail_eq_joinAll (Node.Valid.names hdisk hnew), List.length_singleton] at hlength
  omega

/-- Then a new directory that a walk comes to is not refused. -/
theorem ListsNew.refusal? {rules : Exclusion} {dirs : List Name} {name : Name} {sub : Listing}
    (h : w.ListsNew w' rules trail) (hdisk : w'.disk.Valid)
    (hold : w.disk.node? (.named (trail ++ (dirs ++ [name]))) = none)
    (hnew : w'.disk.node? (.named (trail ++ (dirs ++ [name]))) = some (.directory sub))
    (hkept : ∀ dir ∈ dirs ++ [name], rules.excludes (Utf8.replaceBroken dir) = false)
    (habove : ((Path.ofTrail trail).joinAll dirs).refusal? = none) :
    ((Path.ofTrail trail).joinAll (dirs ++ [name])).refusal? = none := by
  have hvalid := Node.Valid.names hdisk hnew
  have hdirs : ∀ n ∈ trail ++ dirs, Name.Valid n := by
    intro n hn
    refine hvalid n ?_
    rw [← List.append_assoc]
    exact List.mem_append_left _ hn
  rw [← Path.ofTrail_append hdirs, refusal?_eq_none_iff] at habove
  have hlength := h dirs name sub hold hnew hkept habove.2.2
  rw [← Path.ofTrail_append hvalid, refusal?_ofTrail hvalid, if_neg (Nat.not_le.2 hlength)]

/-- The tree below a directory grew as the disk did. -/
theorem Enlarged.grown (h : w.Enlarged w' named) (hdisk : w.disk.Valid) (hlinks : w.disk.Linkless)
    {entries' : Listing} (hnode : w.disk.node? (.named trail) = some (.directory entries))
    (hnode' : w'.disk.node? (.named trail) = some (.directory entries'))
    (hshort : (Path.ofTrail trail).bytes.length < maxPath)
    (hnamed : ∀ name, named name →
      config.rules.inclusion.selects (Utf8.replaceBroken name) = false)
    (hnew : (∀ path cause, f (.unlisted path cause) = none) ∨
      w.ListsNew w' config.rules.exclusion trail) :
    w.Grown w' config f (.ofTrail trail) (.directory entries) (.directory entries') := by
  have hat := Disk.node?_append hnode
  have hat' := Disk.node?_append hnode'
  refine ⟨?_, ?_, ?_, ?_, ?_, ?_⟩
  · intro names found hfound
    rw [← hat] at hfound
    obtain ⟨found', hfound', hsight⟩ := h.keeps.node? hfound
    exact ⟨found', (hat' names).symm.trans hfound', Node.isDirectory_of_sight hsight⟩
  · intro dirs name found' hfound hleaf hselected
    rw [← hat', ← List.append_assoc] at hfound
    rcases h.same _ _ _ hfound hleaf with hold | ⟨hname, -⟩
    · rwa [List.append_assoc, hat] at hold
    · rw [hnamed name hname] at hselected
      cases hselected
  · intro names target
    rw [← hat]
    exact hlinks _ target
  · intro names target
    rw [← hat']
    exact h.linkless hlinks _ target
  · intro names found _ hfound hleaf hfound'
    have hlink : ∀ target, found ≠ .link target := by
      rintro target rfl
      exact hlinks _ target ((hat names).trans hfound)
    rw [read_below hdisk (follow_ofTrail hdisk hnode hshort) hfound hleaf hlink,
      read_below h.valid (follow_ofTrail h.valid hnode' hshort) hfound' hleaf hlink]
  · intro names sub cause hsub hnone hkept habove hrefusal
    rcases hnew with hnothing | hlists
    · exact hnothing _ _
    · have hne : names ≠ [] := by
        rintro rfl
        cases hnone
      obtain ⟨dirs, name, rfl⟩ := (List.eq_nil_or_concat' names).resolve_left hne
      rw [List.dropLast_concat] at habove
      rw [hlists.refusal? h.valid ((hat _).trans hnone) ((hat' _).trans hsub) hkept habove]
        at hrefusal
      cases hrefusal

/-- What is read off a sorted walk is the same on the disk as it grew. -/
theorem Enlarged.filterMap_walk (h : w.Enlarged w' named) (hdisk : w.disk.Valid)
    (hlinks : w.disk.Linkless) (hnode : w.disk.node? (.named trail) = some (.directory entries))
    (hshort : (Path.ofTrail trail).bytes.length < maxPath) (hsorted : config.order = .sorted)
    (hnamed : ∀ name, named name →
      config.rules.inclusion.selects (Utf8.replaceBroken name) = false)
    (hf : Visit.Selective f)
    (hnew : (∀ path cause, f (.unlisted path cause) = none) ∨
      w.ListsNew w' config.rules.exclusion trail) :
    (w'.walk config (.ofTrail trail)).filterMap f =
      (w.walk config (.ofTrail trail)).filterMap f := by
  obtain ⟨entries', hnode'⟩ := Disk.directory_of_keeps h.keeps hnode
  have hfollow := follow_ofTrail hdisk hnode hshort
  rw [walk_of_follow hfollow, walk_of_follow (follow_ofTrail h.valid hnode' hshort)]
  exact filterMap_descend_grown hf hsorted (hdisk.node? hnode) (h.valid.node? hnode')
    (follow_eq_ok_iff.1 hfollow).1 (h.grown hdisk hlinks hnode hnode' hshort hnamed hnew)

/-- A sorted collection is the same on the disk as it grew. -/
theorem Enlarged.collect (h : w.Enlarged w' named) (hdisk : w.disk.Valid)
    (hlinks : w.disk.Linkless) (hnode : w.disk.node? (.named trail) = some (.directory entries))
    (hshort : (Path.ofTrail trail).bytes.length < maxPath) (hsorted : config.order = .sorted)
    (hnamed : ∀ name, named name →
      config.rules.inclusion.selects (Utf8.replaceBroken name) = false) :
    w'.collect config (.ofTrail trail) = w.collect config (.ofTrail trail) := by
  have hfiles := h.filterMap_walk hdisk hlinks hnode hshort hsorted hnamed
    (f := Visit.entry?) ⟨fun _ => rfl, fun _ => rfl⟩ (.inl fun _ _ => rfl)
  have hfailures := h.filterMap_walk hdisk hlinks hnode hshort hsorted hnamed
    (f := Visit.failure?) ⟨fun _ => rfl, fun _ => rfl⟩ (.inl fun _ _ => rfl)
  rw [World.collect, World.collect, Collection.ofVisits, Collection.ofVisits, hfiles, hfailures]

/-! ### The first run -/

theorem exitCode_ne_zero (e : RunError) : e.exitCode ≠ 0 := by
  unfold RunError.exitCode
  split
  · split <;> simp
  · simp

/-- A run that ends well and was to save its document has found its root, and could write all that it
had to. -/
theorem writable_of_exitCode (harguments : Options.ofArguments arguments = .ok o)
    (hstdout : o.stdout = false) (hcode : (w.run colours sink arguments).exitCode = 0) :
    ∃ root, w.projectRoot o.root = .ok root ∧ w.Writable sink o root := by
  cases hroot : w.projectRoot o.root with
  | error failure =>
    have hend : (w.run colours sink arguments).exitCode = if failure.isIo then 2 else 1 :=
      exitCode_of_no_root harguments hroot
    rw [hcode] at hend
    split at hend <;> cases hend
  | ok root =>
    rw [run_eq harguments hroot, hstdout, if_neg Bool.false_ne_true] at hcode
    cases hwrite : w.writeDocument (w.outputPath o.output) (w.runCollection o root).render with
    | mk written result =>
      unfold saveDocument at hcode
      simp only [hwrite] at hcode
      cases result with
      | error failure =>
        have hfailed : (RunError.output (w.outputPath o.output) failure).exitCode = 0 := hcode
        exact absurd hfailed (exitCode_ne_zero _)
      | ok =>
        refine ⟨root, rfl, ?_, fun _ => by rw [hwrite]⟩
        cases sink with
        | full => cases hcode
        | _ => rfl

/-- A run that can write all that it has to saves its document and confirms it. -/
theorem run_of_writable (colours : Terminal.Colours)
    (harguments : Options.ofArguments arguments = .ok o)
    (hroot : w.projectRoot o.root = .ok root) (hstdout : o.stdout = false)
    (hwritable : w.Writable sink o root) :
    w.run colours sink arguments =
      (w.writeDocument (w.outputPath o.output) (w.runCollection o root).render).1.succeed
        (confirmation colours.console (w.outputPath o.output) (w.runCollection o root))
        (w.runNotices o root ++
          [.log (.written (w.outputPath o.output) (w.runCollection o root).render.utf8ByteSize)]) := by
  rw [run_eq harguments hroot, hstdout, if_neg Bool.false_ne_true, hwritable.stdout,
    saveDocument_open (hwritable.output hstdout)]

/-- The root of a run is the path of a directory, and not too long. -/
theorem directory_of_projectRoot (hw : w.Valid) {given : Option Path}
    (h : w.projectRoot given = .ok root) :
    ∃ trail entries, root = .ofTrail trail ∧
      w.disk.node? (.named trail) = some (.directory entries) ∧
      (Path.ofTrail trail).bytes.length < maxPath := by
  cases hpath : w.rootPath given with
  | error cause =>
    unfold projectRoot at h
    rw [rootPath] at hpath
    rw [hpath] at h
    cases h
  | ok p =>
    obtain ⟨trail, rfl, hresolves⟩ := (projectRoot_eq_ok_iff hw hpath).1 h
    obtain ⟨-, entries, -, hnode⟩ := hresolves.leads.found
    exact ⟨trail, entries, rfl, hnode, hresolves.short⟩

/-! ### The second run -/

/-- What is noted before the document is delivered prints the same, when the same is collected and the
same directories cannot be listed. -/
theorem errorText_runNotices_congr (hcollection : w'.runCollection o root = w.runCollection o root)
    (hunlisted : (w'.runVisits o root).filterMap Visit.unlisted? =
      (w.runVisits o root).filterMap Visit.unlisted?) :
    errorText colours .warn (w'.runNotices o root) =
      errorText colours .warn (w.runNotices o root) := by
  rw [runNotices, runNotices, errorText_append, errorText_append, errorText_append, errorText_append,
    errorText_walk, errorText_walk, hcollection, hunlisted]

/-- What a run was to do in the first world is done in the second: made there, it finds the same root,
collects the same, and writing the document changes nothing. -/
structure Settled (w w' : World) (o : Options) (root : Path) : Prop where
  projectRoot : w'.projectRoot o.root = .ok root
  output : w'.outputPath o.output = w.outputPath o.output
  collection : w'.runCollection o root = w.runCollection o root
  written : w'.writeDocument (w'.outputPath o.output) (w'.runCollection o root).render =
    (w', .ok ())

theorem Settled.writable (h : w.Settled w' o root) (hsink : sink = .open) :
    w'.Writable sink o root :=
  ⟨hsink, fun _ => by rw [h.written]⟩

/-- Saving a sorted collection on a disk without links settles it, unless the rules select the name of
the document. -/
theorem settled_of_writeDocument (hw : w.Valid) (hcwd : w.cwd = .named here)
    (hlinks : w.disk.Linkless) (hsorted : o.sorted = true)
    (hname : ∀ name, (w.outputPath o.output).fileName? = some name →
      Rules.builtin.inclusion.selects (Utf8.replaceBroken name) = false)
    (hroot : w.projectRoot o.root = .ok root)
    (hwrite : w.writeDocument (w.outputPath o.output) (w.runCollection o root).render =
      (w', .ok ())) : w.Settled w' o root := by
  obtain ⟨trail, entries, rfl, hnode, hshort⟩ := directory_of_projectRoot hw hroot
  have henlarged := enlarged_writeDocument hw hcwd hlinks hwrite
  have houtput : w'.outputPath o.output = w.outputPath o.output := by
    rw [henlarged.rest]
    rfl
  have hcollection : w'.runCollection o (.ofTrail trail) = w.runCollection o (.ofTrail trail) :=
    henlarged.collect hw.disk hlinks hnode hshort (by rw [hsorted]; rfl) hname
  refine ⟨?_, houtput, hcollection, ?_⟩
  · rw [henlarged.rest]
    exact projectRoot_of_keeps henlarged.keeps hroot
  · rw [houtput, hcollection]
    exact writeDocument_again hwrite henlarged.valid

/-- How a run goes that is made once more with the same arguments, on the disk as the first one left
it. -/
structure Repeats (w : World) (colours : Terminal.Colours) (sink : Sink) (arguments : List Bytes)
    (o : Options) : Prop where
  exitCode : ((w.run colours sink arguments).world.run colours sink arguments).exitCode = 0
  /-- Nothing changes any more: above all, the document is the same byte for byte. -/
  world : ((w.run colours sink arguments).world.run colours sink arguments).world =
    (w.run colours sink arguments).world
  stdout : ((w.run colours sink arguments).world.run colours sink arguments).stdout =
    (w.run colours sink arguments).stdout
  /-- At the first level of the log standard error is the same too, when what the first run made can
  be listed. -/
  stderr : o.verbose = 0 →
    (∀ trail, w.projectRoot o.root = .ok (.ofTrail trail) →
      w.ListsNew (w.run colours sink arguments).world Rules.builtin.exclusion trail) →
    errorText colours (logLimit arguments)
        ((w.run colours sink arguments).world.run colours sink arguments).stderr =
      errorText colours (logLimit arguments) (w.run colours sink arguments).stderr

/-- On a disk without links a run that saves a sorted collection and ends well can be repeated, unless
the name of the document is one that the rules select. -/
theorem run_again (w : World) (colours : Terminal.Colours) (sink : Sink) (arguments : List Bytes)
    (o : Options) (here : List Name) (hw : w.Valid) (hcwd : w.cwd = .named here)
    (hlinks : w.disk.Linkless) (harguments : Options.ofArguments arguments = .ok o)
    (hstdout : o.stdout = false) (hsorted : o.sorted = true)
    (hname : ∀ name, (w.outputPath o.output).fileName? = some name →
      Rules.builtin.inclusion.selects (Utf8.replaceBroken name) = false)
    (hcode : (w.run colours sink arguments).exitCode = 0) :
    w.Repeats colours sink arguments o := by
  obtain ⟨root, hroot, hwritable⟩ := writable_of_exitCode harguments hstdout hcode
  have hrun := run_of_writable colours harguments hroot hstdout hwritable
  -- what the first run leaves is what its writing left, and there all is settled
  obtain ⟨first, hfirst⟩ : ∃ first, (w.run colours sink arguments).world = first := ⟨_, rfl⟩
  have hwrite : w.writeDocument (w.outputPath o.output) (w.runCollection o root).render =
      (first, .ok ()) := by
    rw [← hfirst, hrun, ← hwritable.output hstdout]
    rfl
  have hsettled := settled_of_writeDocument hw hcwd hlinks hsorted hname hroot hwrite
  have hwritable' := hsettled.writable hwritable.stdout
  have hrun' := run_of_writable colours harguments hsettled.projectRoot hstdout hwritable'
  rw [hsettled.written] at hrun'
  refine ⟨?_, ?_, ?_, ?_⟩
  · rw [hfirst, hrun']
    rfl
  · rw [hfirst, hrun']
    rfl
  · rw [hfirst, hrun', hrun, hsettled.output, hsettled.collection]
    rfl
  · intro hverbose hlists
    obtain ⟨trail, entries, rfl, hnode, hshort⟩ := directory_of_projectRoot hw hroot
    have hlimit : logLimit arguments = .warn := by
      rw [logLimit, harguments]
      simp only [hverbose]
      rfl
    have hunlisted : (first.runVisits o (.ofTrail trail)).filterMap Visit.unlisted? =
        (w.runVisits o (.ofTrail trail)).filterMap Visit.unlisted? :=
      (enlarged_writeDocument hw hcwd hlinks hwrite).filterMap_walk hw.disk hlinks hnode hshort
        (by rw [hsorted]; rfl) hname ⟨fun _ => rfl, fun _ => rfl⟩
        (.inr (by rw [← hfirst]; exact hlists trail hroot))
    rw [hfirst, hlimit, errorText_run harguments hsettled.projectRoot hwritable',
      errorText_run harguments hroot hwritable]
    exact errorText_runNotices_congr hsettled.collection hunlisted

/-- A disk that holds nothing but the file `x.h`, seen from its root. -/
def tidy : World where
  disk := ⟨Disk.headers⟩
  cwd := .named []
  homeVariable := none
  accountHome := "/"

/-- Arguments that ask to save to `m/out`, by way of `n.c`. -/
def tidyArguments : List Bytes :=
  [Bytes.ofString "--sorted", Bytes.ofString "--output=n.c/../m/out"]

/-- What these arguments ask for. -/
def tidyOptions : Options :=
  { Options.none with output := some (.ofString "n.c/../m/out"), sorted := true }

/-- The directories `n.c` and `m` are made and `m/out` is saved; the next run changes nothing and
prints the same. -/
theorem run_again_tidy :
    tidy.Valid ∧ tidy.cwd = .named [] ∧ tidy.disk.Linkless ∧
      Options.ofArguments tidyArguments = .ok tidyOptions ∧
      tidyOptions.stdout = false ∧ tidyOptions.sorted = true ∧
      (∀ name, (tidy.outputPath tidyOptions.output).fileName? = some name →
        Rules.builtin.inclusion.selects (Utf8.replaceBroken name) = false) ∧
      (tidy.run ⟨false, false⟩ .open tidyArguments).exitCode = 0 ∧
      (tidy.run ⟨false, false⟩ .open tidyArguments).world.isDirectory (.ofString "n.c") = true ∧
      tidy.Repeats ⟨false, false⟩ .open tidyArguments tidyOptions ∧
      errorText ⟨false, false⟩ (logLimit tidyArguments)
          ((tidy.run ⟨false, false⟩ .open tidyArguments).world.run ⟨false, false⟩ .open
            tidyArguments).stderr =
        errorText ⟨false, false⟩ (logLimit tidyArguments)
          (tidy.run ⟨false, false⟩ .open tidyArguments).stderr := by
  have hw : tidy.Valid := ⟨by decide, Disk.headers, rfl⟩
  have hlinks : tidy.disk.Linkless := Disk.at?_headers_ne_link
  have harguments : Options.ofArguments tidyArguments = .ok tidyOptions := rfl
  have hname : ∀ name, (tidy.outputPath tidyOptions.output).fileName? = some name →
      Rules.builtin.inclusion.selects (Utf8.replaceBroken name) = false := by
    intro name hfile
    have hlast : (tidy.outputPath tidyOptions.output).fileName? = some [0x6F, 0x75, 0x74] := rfl
    obtain rfl := Option.some.inj (hlast.symm.trans hfile)
    decide
  have hcode : (tidy.run ⟨false, false⟩ .open tidyArguments).exitCode = 0 := by decide +kernel
  have hrepeats := run_again tidy ⟨false, false⟩ .open tidyArguments tidyOptions [] hw rfl hlinks
    harguments rfl rfl hname hcode
  refine ⟨hw, rfl, hlinks, harguments, rfl, rfl, hname, hcode, by decide +kernel, hrepeats,
    hrepeats.stderr rfl ?_⟩
  intro trail _
  exact listsNew_of_reach (by decide +kernel) (by decide +kernel)

/-! ### A directory that is too deep -/

/-- A directory is made under a name that leads nowhere yet. -/
theorem makeDirectory_vacant {p : Path} {name : Name} (hrefusal : p.refusal? = none)
    (horigin : Disk.origin p w.cwd = .named here) (hsteps : p.steps = [name])
    (hturn : w.disk.turn (.named here) name = .missing) :
    w.makeDirectory p = .ok { w with disk := w.disk.put here name (.directory []) } := by
  have hchase : w.disk.chase false maxLinks (.named here) [name] false =
      .vacant (.named here) name false := by
    rw [Disk.chase.eq_def, Disk.advance_cons, hturn]
    rfl
  simp only [makeDirectory, createNode, hrefusal, horigin, hsteps, hchase, enter]

/-- The parents of a path are there once the innermost is made. -/
theorem prepareParent_of_makeDirectory {p parent : Path} (hparent : p.parent? = some parent)
    (hempty : parent.isEmpty = false) (h : w.makeDirectory parent = .ok w') :
    w.prepareParent p = (w', .ok ()) := by
  obtain ⟨above, habove⟩ := List.head?_eq_some_iff.1 parent.head?_ancestors
  simp [prepareParent, hparent, hempty, ensureDirectories, habove, ensureChain, ensureDirectory, h]

/-- A file is made in a directory below that at which its path starts. -/
theorem writeFile_vacant {p : Path} {dir name : Name} {there : List Name} {content : Bytes}
    (hrefusal : p.refusal? = none) (horigin : Disk.origin p w.cwd = .named here)
    (hslash : p.endsInSlash = false) (hsteps : p.steps = [dir, name])
    (hmove : w.disk.turn (.named here) dir = .move (.named there))
    (hturn : w.disk.turn (.named there) name = .missing) :
    w.writeFile p content = .ok { w with disk := w.disk.put there name (.file content) } := by
  have happroach : w.disk.approach maxLinks (.named here) [dir, name] false =
      .vacant (.named there) name false := by
    rw [Disk.approach_eq, Disk.advance_cons, hmove]
    dsimp only
    rw [Disk.advance_cons, hturn]
    rfl
  simp only [writeFile, hrefusal, horigin, hslash, hsteps, happroach, enter]

/-- The path of a file in a new directory with the longest name. -/
def deepOutput : Path := (⟨longName⟩ : Path).join [0x6F]

/-- Arguments that ask to collect everything from the root of the disk and to save it there. -/
def deepArguments : List Bytes :=
  [Bytes.ofString "--sorted", Bytes.ofString "--root=/",
    Bytes.ofString "--output=" ++ deepOutput.bytes]

/-- What these arguments ask for. -/
def deepOptions : Options :=
  { Options.none with root := some (.ofString "/"), output := some deepOutput, sorted := true }

theorem reach_nested (depth : Nat) : (Node.directory (nested depth)).reach = depth * 256 := by
  induction depth with
  | zero => rfl
  | succ depth ih =>
    rw [Node.reach, nested, Node.reachAll, ih, Node.reachAll, length_longName, maxName]
    omega

theorem linkless_deep (depth : Nat) : (deep depth).disk.Linkless := by
  intro trail target
  change (Node.directory (nested depth)).at? trail ≠ some (.link target)
  induction depth generalizing trail with
  | zero => cases trail <;> simp [nested, Node.at?, Node.entries, Listing.find?]
  | succ depth ih =>
    intro hat
    cases trail with
    | nil => cases hat
    | cons name rest =>
      obtain ⟨listed, child, hentries, hfind, hchild⟩ := Node.at?_cons_eq_some hat
      obtain ⟨rfl⟩ := Node.directory.inj hentries
      obtain ⟨-, rfl⟩ := Prod.mk.inj (List.mem_singleton.1 (Listing.mem_of_find? hfind))
      exact ih rest hchild

theorem outputPath_deep : (deep 15).outputPath deepOptions.output = deepOutput := by
  have hspelled : deepOutput =
      .ofString (String.ofList (List.replicate maxName 'a' ++ ['/', 'o'])) := by
    rw [Path.ofString, Bytes.ofString, String.toList_ofList]
    decide +kernel
  have hexpand : (deep 15).expand deepOutput = deepOutput := by
    rw [hspelled]
    exact expand_ofString (by rw [String.toList_ofList]; decide)
  exact hexpand

theorem selects_deepOutput : ∀ name,
    ((deep 15).outputPath deepOptions.output).fileName? = some name →
      Rules.builtin.inclusion.selects (Utf8.replaceBroken name) = false := by
  intro name hfile
  have hlast : deepOutput.fileName? = some [0x6F] := by decide +kernel
  rw [outputPath_deep, hlast] at hfile
  obtain rfl := Option.some.inj hfile
  decide +kernel

/-- One more directory is made in the innermost. -/
theorem makeDirectory_deep :
    ∃ made, (deep 15).makeDirectory ⟨longName⟩ = .ok made ∧
      made.cwd = .named (List.replicate 15 longName) ∧
      made.disk.turn (.named (List.replicate 15 longName)) longName =
        .move (.named (List.replicate 15 longName ++ [longName])) ∧
      made.disk.node? (.named (List.replicate 15 longName ++ [longName])) =
        some (.directory []) := by
  have hnode := node?_deep 15
  have hturn : (deep 15).disk.turn (.named (List.replicate 15 longName)) longName = .missing := by
    rw [Disk.turn_of_directory valid_longName.ne_dot valid_longName.ne_dotDot hnode,
      length_longName, if_neg (Nat.lt_irrefl _)]
    rfl
  exact ⟨_, makeDirectory_vacant (by decide +kernel) rfl (by decide +kernel) hturn, rfl,
    Disk.turn_put hturn rfl (by simp), Disk.node?_put hnode _⟩

/-- The document is saved in the directory that is made for it. -/
theorem writeDocument_deep (text : String) :
    ∃ first sub, (deep 15).writeDocument deepOutput text = (first, .ok ()) ∧
      first.disk.node? (.named (List.replicate 15 longName ++ [longName])) =
        some (.directory sub) := by
  obtain ⟨made, hmake, hcwd, hmove, hinside⟩ := makeDirectory_deep
  have hprepared : (deep 15).prepareParent deepOutput = (made, .ok ()) :=
    prepareParent_of_makeDirectory (by decide +kernel) (by decide +kernel) hmake
  have horigin : Disk.origin deepOutput made.cwd = .named (List.replicate 15 longName) := by
    rw [hcwd]
    rfl
  have hvacant : made.disk.turn (.named (List.replicate 15 longName ++ [longName])) [0x6F] =
      .missing := by
    rw [Disk.turn_of_directory (by decide) (by decide) hinside]
    rfl
  have hwrite : made.writeFile deepOutput (Bytes.ofString text) = .ok { made with
      disk := made.disk.put (List.replicate 15 longName ++ [longName]) [0x6F]
        (.file (Bytes.ofString text)) } :=
    writeFile_vacant (by decide +kernel) horigin (by decide +kernel) (by decide +kernel) hmove
      hvacant
  generalize { made with disk := _ } = first at hwrite
  obtain ⟨-, hkeeps⟩ := keeps_writeFile hwrite
  obtain ⟨sub, hsub⟩ := Disk.directory_of_keeps hkeeps hinside
  exact ⟨first, sub, by simp only [writeDocument, hprepared, hwrite], hsub⟩

/-- Before it is made all directories can be listed. -/
theorem join_warning_deep :
    String.join (((deep 15).runVisits deepOptions (.ofTrail [])).map Visit.warning) = "" := by
  have hdisk := (valid_deep 15).disk
  have hfollow : (deep 15).follow (.ofTrail []) = .ok (.named [], .directory (nested 15)) :=
    follow_ofTrail hdisk rfl (by decide)
  have hreach : (Path.ofTrail []).bytes.length + (Node.directory (nested 15)).reach < maxPath := by
    rw [reach_nested]
    decide
  exact join_warning_of_fits hdisk hfollow (fits_of_reach hreach)

/-- Once it is made it cannot be listed. -/
theorem unlisted_deep {sub : Listing} (hdisk : w.disk.Valid)
    (hsub : w.disk.node? (.named (List.replicate 15 longName ++ [longName])) =
      some (.directory sub)) :
    Visit.unlisted ((Path.ofTrail []).joinAll (List.replicate 15 longName ++ [longName]))
      (.os .nameTooLong) ∈ w.runVisits deepOptions (.ofTrail []) :=
  unlisted_mem_walk_deep rfl hdisk hsub

/-- A run that makes a directory with a path too long for the system says nothing of it. The next one
does: it comes to that directory and cannot list it. -/
theorem run_again_warns_of_deep_directory :
    (deep 15).Valid ∧ (deep 15).cwd = .named (List.replicate 15 longName) ∧
      (deep 15).disk.Linkless ∧ Options.ofArguments deepArguments = .ok deepOptions ∧
      deepOptions.stdout = false ∧ deepOptions.sorted = true ∧ deepOptions.verbose = 0 ∧
      (∀ name, ((deep 15).outputPath deepOptions.output).fileName? = some name →
        Rules.builtin.inclusion.selects (Utf8.replaceBroken name) = false) ∧
      ((deep 15).run ⟨false, false⟩ .open deepArguments).exitCode = 0 ∧
      errorText ⟨false, false⟩ (logLimit deepArguments)
          (((deep 15).run ⟨false, false⟩ .open deepArguments).world.run ⟨false, false⟩ .open
            deepArguments).stderr ≠
        errorText ⟨false, false⟩ (logLimit deepArguments)
          ((deep 15).run ⟨false, false⟩ .open deepArguments).stderr := by
  have hw := valid_deep 15
  have harguments : Options.ofArguments deepArguments = .ok deepOptions := by decide +kernel
  have hroot : (deep 15).projectRoot deepOptions.root = .ok (.ofTrail []) := by decide +kernel
  obtain ⟨first, sub, hwrite, hsub⟩ :=
    writeDocument_deep ((deep 15).runCollection deepOptions (.ofTrail [])).render
  rw [← outputPath_deep] at hwrite
  have hwritable : (deep 15).Writable .open deepOptions (.ofTrail []) :=
    ⟨rfl, fun _ => by rw [hwrite]⟩
  have hrun := run_of_writable ⟨false, false⟩ harguments hroot rfl hwritable
  rw [hwrite] at hrun
  have hfirst : ((deep 15).run ⟨false, false⟩ .open deepArguments).world = first := by
    rw [hrun]
    rfl
  have hsettled :=
    settled_of_writeDocument hw rfl (linkless_deep 15) rfl selects_deepOutput hroot hwrite
  have hdisk := (enlarged_writeDocument hw rfl (linkless_deep 15) hwrite).valid
  refine ⟨hw, rfl, linkless_deep 15, harguments, rfl, rfl, rfl, selects_deepOutput,
    by rw [hrun]; rfl, ?_⟩
  have hlimit : logLimit deepArguments = .warn := by
    rw [logLimit, harguments]
    rfl
  rw [hfirst, hlimit, errorText_run harguments hsettled.projectRoot (hsettled.writable rfl),
    errorText_run harguments hroot hwritable, errorText_runNotices, errorText_runNotices,
    join_warning_deep, hsettled.collection]
  -- the lines about files are the same, so the warnings of the second run would have to be empty
  intro heq
  exact join_warning_ne_empty (unlisted_deep hdisk hsub) ((String.append_left_inj _).1 heq)

end World

end SourceBundle
