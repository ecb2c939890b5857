import SourceBundle.Run
import SourceBundle.Proofs.Collection.Logged
import SourceBundle.Proofs.Collection.Spelling
import SourceBundle.Proofs.Disk.Writing
import SourceBundle.Proofs.Text.Utf8

/-!
What a run delivers. Whether the document is printed or saved, it is the document of one collection,
taken before anything is written, so a file that the run writes into the project cannot show up in
it. The log adds nothing to standard error below its first level but the directories that could not
be listed; what is left are the failures, one line each. And a program that asks the library for the
document by the path that the user gave gets the same one.
-/

namespace SourceBundle

/-! ### Standard error -/

/-- The lines that tell, without colours, of files that could not be read. -/
def failureLines (failures : List Failure) : String :=
  String.join (failures.map fun f => "⚠️ " ++ f.message ++ "\n")

/-- The line of the log about a directory that could not be listed; no other visit has one that
weighs as much. -/
def Visit.warning (v : Visit) : String :=
  match v with
  | .unlisted _ _ => v.record.line false
  | _ => ""

namespace Terminal

theorem length_le_length_foldl_stripStep (broken : Broken) (cs : List Char)
    (state : Stripper × List Char) :
    state.2.length ≤ (cs.foldl (stripStep broken) state).2.length := by
  induction cs generalizing state with
  | nil => exact Nat.le_refl _
  | cons c cs ih =>
    refine Nat.le_trans ?_ (ih (stripStep broken state c))
    unfold stripStep
    split <;> simp

/-- A text is not empty once it is stripped, when its first character shows. -/
theorem strip_ne_empty {broken : Broken} {text : String} {c : Char}
    (h : text.toList.head? = some c) (hshows : Reader.ground.shows c = true) :
    strip broken text ≠ "" := by
  obtain ⟨rest, hrest⟩ := List.head?_eq_some_iff.1 h
  have hkeeps : Stripper.start.keeps c = true := hshows
  have hlength := length_le_length_foldl_stripStep broken rest (stripStep broken (.start, []) c)
  intro hempty
  rw [strip, hrest, List.foldl_cons] at hempty
  have hnil := congrArg (List.length ∘ String.toList) hempty
  simp [stripStep, hkeeps] at hlength hnil
  simp [hnil] at hlength

end Terminal

/-- Without colours a line of the log begins with a bracket. -/
theorem Record.line_ne_empty (r : Record) : r.line false ≠ "" := by
  unfold line
  refine Terminal.strip_ne_empty (c := '[') ?_ rfl
  simp [Terminal.paint]

theorem join_ne_empty {texts : List String} {text : String} (hmem : text ∈ texts) (hne : text ≠ "") :
    String.join texts ≠ "" := by
  intro hempty
  have hchars := congrArg String.toList hempty
  rw [String.toList_join] at hchars
  exact hne (String.toList_eq_nil_iff.1 (List.flatMap_eq_nil_iff.1 hchars text hmem))

/-- Where a directory could not be listed, there is something to warn of. -/
theorem join_warning_ne_empty {visits : List Visit} {p : Path} {cause : IoError}
    (h : Visit.unlisted p cause ∈ visits) : String.join (visits.map Visit.warning) ≠ "" :=
  join_ne_empty (List.mem_map_of_mem h) (Record.line_ne_empty _)

/-- A visit to a directory that could not be listed. -/
def Visit.unlisted? (v : Visit) : Option Visit :=
  match v with
  | .unlisted path cause => some (.unlisted path cause)
  | _ => none

section Notices

variable {colours : Terminal.Colours} {limit : Level}

theorem errorText_append (a b : List Notice) :
    errorText colours limit (a ++ b) = errorText colours limit a ++ errorText colours limit b := by
  simp [errorText]

theorem text_log (event : Event) :
    Notice.text colours limit (.log event) =
      if event.record.level.shows limit then event.record.line colours.log else "" := rfl

theorem text_skipped (failure : Failure) (h : colours.console = false) :
    Notice.text colours limit (.skipped failure) = "⚠️ " ++ failure.message ++ "\n" := by
  have htext : Notice.text colours limit (.skipped failure) =
      Terminal.paint colours.console ["33"] "⚠️" ++ " " ++ failure.message ++ "\n" := rfl
  rw [htext, h]
  rfl

theorem shows_warn {level : Level} (h : level ≠ .warn) : level.shows .warn = false := by
  cases level <;> first | rfl | exact absurd rfl h

/-- Events that weigh less than warnings are not shown. -/
theorem text_of_quiet {event : Event} (h : event.record.level ≠ .warn) :
    Notice.text colours .warn (.log event) = "" := by
  rw [text_log, shows_warn h]
  simp

theorem errorText_of_quiet {events : List Event} (h : ∀ e ∈ events, e.record.level ≠ .warn) :
    errorText colours .warn (events.map .log) = "" := by
  induction events with
  | nil => rfl
  | cons e rest ih =>
    obtain ⟨he, hrest⟩ := List.forall_mem_cons.1 h
    have hbelow := ih hrest
    simp only [errorText, List.map_cons, String.join_cons] at hbelow ⊢
    rw [text_of_quiet he, hbelow]
    rfl

/-- Of the log of a walk only the directories show that could not be listed. -/
theorem errorText_walk (root : Path) (visits : List Visit) :
    errorText colours .warn ((walkEvents root visits).map .log) =
      errorText colours .warn ((visits.filterMap Visit.unlisted?).map fun v => .log (.visited v)) := by
  have hvisits : errorText colours .warn ((visits.map Event.visited).map .log) =
      errorText colours .warn
        ((visits.filterMap Visit.unlisted?).map fun v => .log (.visited v)) := by
    induction visits with
    | nil => rfl
    | cons v rest ih =>
      simp only [errorText, List.map_cons, String.join_cons] at ih ⊢
      rw [ih]
      cases v with
      | unlisted path cause =>
        rw [List.filterMap_cons_some (by rfl), List.map_cons, List.map_cons, String.join_cons]
      | _ =>
        rw [text_of_quiet (by simp [Event.record, Visit.record])]
        exact String.empty_append
  have hstart : errorText colours .warn (([.walkStarted root] : List Event).map .log) = "" := by
    refine errorText_of_quiet ?_
    simp [Event.record]
  have hfinish : ∀ read failed,
      errorText colours .warn (([.walkFinished read failed] : List Event).map .log) = "" := by
    intro read failed
    refine errorText_of_quiet ?_
    simp [Event.record]
  rw [walkEvents, ← List.singleton_append, List.append_assoc, List.map_append, List.map_append,
    errorText_append, errorText_append, hstart, hvisits, hfinish]
  simp

/-- Without colours these are the warnings. -/
theorem errorText_walkEvents (h : colours.log = false) (root : Path) (visits : List Visit) :
    errorText colours .warn ((walkEvents root visits).map .log) =
      String.join (visits.map Visit.warning) := by
  rw [errorText_walk]
  induction visits with
  | nil => rfl
  | cons v rest ih =>
    rw [List.map_cons, String.join_cons, ← ih]
    cases v with
    | unlisted path cause =>
      have hline : Notice.text colours .warn (.log (.visited (.unlisted path cause))) =
          (Visit.unlisted path cause).warning := by
        rw [text_log, h]
        rfl
      rw [← hline]
      simp [errorText, Visit.unlisted?]
    | _ => exact String.empty_append.symm

theorem errorText_skipped (h : colours.console = false) (failures : List Failure) :
    errorText colours limit (failures.map .skipped) = failureLines failures := by
  simp only [errorText, failureLines, List.map_map]
  exact congrArg String.join (List.map_congr_left fun f _ => text_skipped f h)

end Notices

namespace World

variable {w : World} {colours : Terminal.Colours} {sink : Sink} {arguments : List Bytes}
  {o : Options} {root : Path} {place : Place} {entries : Listing}

/-! ### The run in parts -/

/-- What a run collects. -/
def runCollection (w : World) (o : Options) (root : Path) : Collection :=
  w.collect ⟨.builtin, if o.sorted then .sorted else .discovery⟩ root

/-- The visits of a run. -/
def runVisits (w : World) (o : Options) (root : Path) : List Visit :=
  w.walk ⟨.builtin, if o.sorted then .sorted else .discovery⟩ root

/-- What a run has noted when it comes to deliver the document. -/
def runNotices (w : World) (o : Options) (root : Path) : List Notice :=
  [Event.loggerReady (.ofVerbosity o.verbose), .argumentsRead o, .rootResolved root,
      .rootDetermined root].map .log ++
    (walkEvents root (w.runVisits o root)).map .log ++
    (w.runCollection o root).failures.map .skipped

/-- A run collects once and then prints or saves. -/
theorem run_eq (harguments : Options.ofArguments arguments = .ok o)
    (hroot : w.projectRoot o.root = .ok root) :
    w.run colours sink arguments =
      if o.stdout then w.printDocument sink (w.runNotices o root) (w.runCollection o root).render
      else
        w.saveDocument colours sink (w.runNotices o root) (w.outputPath o.output)
          (w.runCollection o root) := by
  unfold run perform
  simp only [harguments, hroot]
  rfl

theorem printDocument_open (notices : List Notice) (text : String) :
    w.printDocument .open notices text = w.succeed text notices := by
  simp [printDocument]

/-- A saved document leaves the disk as the writing left it, whatever becomes of the
confirmation. -/
theorem world_saveDocument {notices : List Notice} {p : Path} {c : Collection}
    (h : (w.writeDocument p c.render).2 = .ok ()) :
    (w.saveDocument colours sink notices p c).world = (w.writeDocument p c.render).1 := by
  cases hwrite : w.writeDocument p c.render with
  | mk written result =>
    rw [hwrite] at h
    obtain rfl : result = .ok () := h
    unfold saveDocument
    simp only [hwrite]
    cases sink <;> rfl

theorem saveDocument_open {notices : List Notice} {p : Path} {c : Collection}
    (h : (w.writeDocument p c.render).2 = .ok ()) :
    w.saveDocument colours .open notices p c =
      (w.writeDocument p c.render).1.succeed (confirmation colours.console p c)
        (notices ++ [.log (.written p c.render.utf8ByteSize)]) := by
  cases hwrite : w.writeDocument p c.render with
  | mk written result =>
    rw [hwrite] at h
    obtain rfl : result = .ok () := h
    unfold saveDocument
    simp only [hwrite]

/-! ### What is printed about failures -/

/-- At the first level of the log, standard error tells of directories that could not be listed and
of files that could not be read. -/
theorem errorText_runNotices :
    errorText ⟨false, false⟩ .warn (w.runNotices o root) =
      String.join ((w.runVisits o root).map Visit.warning) ++
        failureLines (w.runCollection o root).failures := by
  have hopening : errorText ⟨false, false⟩ .warn
      ([Event.loggerReady (.ofVerbosity o.verbose), .argumentsRead o, .rootResolved root,
        .rootDetermined root].map .log) = "" := by
    refine errorText_of_quiet ?_
    simp [Event.record]
  rw [runNotices, errorText_append, errorText_append, hopening, errorText_walkEvents rfl,
    errorText_skipped rfl]
  simp

/-- Where no path is too long, no directory is warned of. -/
theorem join_warning_of_fits (hdisk : w.disk.Valid)
    (hroot : w.follow root = .ok (place, .directory entries))
    (hfits : Fits .builtin root entries) :
    String.join ((w.runVisits o root).map Visit.warning) = "" := by
  have hnone : ∀ v ∈ w.runVisits o root, v.warning = "" := by
    intro v hv
    cases v with
    | unlisted p cause => exact absurd hv (unlisted_notMem_walk hdisk hroot hfits p cause)
    | _ => rfl
  generalize w.runVisits o root = visits at hnone
  induction visits with
  | nil => rfl
  | cons v rest ih =>
    obtain ⟨hv, hrest⟩ := List.forall_mem_cons.1 hnone
    rw [List.map_cons, String.join_cons, hv, ih hrest]
    rfl

/-! ### The root as the user spells it -/

/-- A text that does not begin with a tilde is taken as the path that it spells. -/
theorem expand_ofString {s : String} (h : s.toList.head? ≠ some '~') :
    w.expand (.ofString s) = .ofString s := by
  rw [expand, Path.shown_ofString, expandTilde]
  split
  · next rest hs => rw [hs] at h; exact absurd rfl h
  · rfl

theorem projectRoot_eq_ok {given : Path} (h : w.projectRoot (some given) = .ok root) :
    w.canonical (w.expand given) = .ok root ∧ w.isDirectory root = true := by
  unfold projectRoot at h
  simp only [Option.elim_some] at h
  split at h
  · cases h
  next resolved hcanonical =>
  split at h
  · next hdir =>
    obtain ⟨rfl⟩ := h
    exact ⟨hcanonical, hdir⟩
  · cases h

/-- The library gives the same document for the path that the user spells. -/
theorem collectDocument_eq (hw : w.Valid) {s : String} (hs : s.toList.head? ≠ some '~')
    (hroot : w.projectRoot (some (.ofString s)) = .ok root)
    (hfollow : w.follow root = .ok (place, .directory entries))
    (hunlimited : w.Unlimited .builtin (.ofString s) entries)
    (hunlimited' : w.Unlimited .builtin root entries) :
    (w.collectDocument (.ofString s)).1 = (w.collect .builtin root).render := by
  obtain ⟨hcanonical, hdir⟩ := projectRoot_eq_ok hroot
  rw [expand_ofString hs] at hcanonical
  obtain ⟨trail, listed, rfl, hthere, hspelled⟩ := follow_canonical hw hcanonical hdir
  obtain ⟨rfl, rfl⟩ : Place.named trail = place ∧ listed = entries := by
    rw [hthere] at hfollow
    simpa using hfollow
  have htold : (w.collect .builtin (.ofString s)).files.map Entry.told =
      (w.collect .builtin (.ofTrail trail)).files.map Entry.told :=
    told_spelling hw.disk (hspelled hunlimited.root_short) hthere hunlimited hunlimited'
  exact Collection.render_eq_of_told htold

/-! ### The whole run -/

/-- Everything that a run has to write can be written. -/
structure Writable (w : World) (sink : Sink) (o : Options) (root : Path) : Prop where
  stdout : sink = .open
  output : o.stdout = false →
    (w.writeDocument (w.outputPath o.output) (w.runCollection o root).render).2 = .ok ()

/-- What a run delivers that collects below `root`. -/
structure Delivers (w : World) (colours : Terminal.Colours) (sink : Sink) (arguments : List Bytes)
    (o : Options) (root : Path) : Prop where
  /-- Printed, the document is all of standard output, and the world stays as it was. -/
  printed : o.stdout = true → sink = .open →
    (w.run colours sink arguments).stdout = (w.runCollection o root).render ∧
      (w.run colours sink arguments).world = w ∧ (w.run colours sink arguments).exitCode = 0
  /-- Saved, the document is what the output path leads to, byte for byte. Only where a device stands
  there is it lost, and then nothing was made but directories. -/
  saved : o.stdout = false →
    (w.writeDocument (w.outputPath o.output) (w.runCollection o root).render).2 = .ok () →
    ∃ place node,
      (w.run colours sink arguments).world.follow (w.outputPath o.output) = .ok (place, node) ∧
      (node = .file (Bytes.ofString (w.runCollection o root).render) ∨
        (w.run colours sink arguments).world = (w.prepareParent (w.outputPath o.output)).1 ∧
          ∃ kind, node = .device kind)
  /-- Then standard output is one line with the output path, the number of files and their size. -/
  confirmed : o.stdout = false → w.Writable sink o root →
    (w.run colours sink arguments).stdout =
        Terminal.paint colours.console ["32"] "✅" ++ " Prompt saved to " ++
          Terminal.paintThrough colours.console ["34"] (w.outputPath o.output).shown ++ " (" ++
          Terminal.paint colours.console ["2"]
            (toString (w.runCollection o root).files.length ++
              (if (w.runCollection o root).files.length = 1 then " file, " else " files, ") ++
              sizeText (w.runCollection o root).totalBytes) ++ ")\n" ∧
      (w.run colours sink arguments).exitCode = 0
  /-- At the first level of the log and without colours, standard error is one line for each
  failure, after the warnings about directories that could not be listed. -/
  warned : o.verbose = 0 → colours = ⟨false, false⟩ → w.Writable sink o root →
    errorText colours (logLimit arguments) (w.run colours sink arguments).stderr =
      String.join ((w.runVisits o root).map Visit.warning) ++
        failureLines (w.runCollection o root).failures
  /-- These are the directories that the walk comes to, does not leave out and finds under a path that
  is too long, each of them once. -/
  unlisted : ∀ place entries, w.follow root = .ok (place, .directory entries) →
    ((w.runVisits o root).map Visit.path).Nodup ∧
      ∀ p cause, Visit.unlisted p cause ∈ w.runVisits o root ↔
        cause = .os .nameTooLong ∧ maxPath ≤ p.bytes.length ∧
          ∃ s, ComesTo .builtin root entries s ∧ s.path root = p ∧ s.node.isDirectory = true ∧
            Rules.builtin.exclusion.excludes s.shownName = false
  /-- Where no path is too long, there are no such warnings. -/
  told : ∀ place entries, o.verbose = 0 → colours = ⟨false, false⟩ → w.Writable sink o root →
    w.follow root = .ok (place, .directory entries) → Fits .builtin root entries →
    errorText colours (logLimit arguments) (w.run colours sink arguments).stderr =
      failureLines (w.runCollection o root).failures
  /-- In the order of discovery, the library gives the same document for the root as the user spells
  it, unless the limits of the system play a part. -/
  library : ∀ s place entries, o.sorted = false → o.root = some (.ofString s) →
    s.toList.head? ≠ some '~' → w.follow root = .ok (place, .directory entries) →
    w.Unlimited .builtin (.ofString s) entries → w.Unlimited .builtin root entries →
    (w.collectDocument (.ofString s)).1 = (w.runCollection o root).render

/-- What comes after the delivery shows only where the log is more detailed. -/
theorem errorText_run (harguments : Options.ofArguments arguments = .ok o)
    (hroot : w.projectRoot o.root = .ok root) (hwritable : w.Writable sink o root) :
    errorText colours .warn (w.run colours sink arguments).stderr =
      errorText colours .warn (w.runNotices o root) := by
  obtain ⟨rfl, houtput⟩ := hwritable
  have hend : ∀ events : List Event, (∀ e ∈ events, e.record.level ≠ .warn) →
      errorText colours .warn (w.runNotices o root ++ events.map .log) =
        errorText colours .warn (w.runNotices o root) := by
    intro events hevents
    rw [errorText_append, errorText_of_quiet hevents]
    simp
  rw [run_eq harguments hroot]
  cases hstdout : o.stdout with
  | true =>
    rw [if_pos rfl, printDocument_open]
    exact hend [.finished, .leaving 0] (by simp [Event.record])
  | false =>
    rw [if_neg Bool.false_ne_true, saveDocument_open (houtput hstdout)]
    have hquiet := hend [.written (w.outputPath o.output)
      (w.runCollection o root).render.utf8ByteSize, .finished, .leaving 0] (by simp [Event.record])
    rw [← hquiet]
    simp [succeed]

/-- What a run says that can write all that it has to: the warnings, and what could not be read. -/
theorem errorText_run_eq (harguments : Options.ofArguments arguments = .ok o)
    (hroot : w.projectRoot o.root = .ok root) (hwritable : w.Writable sink o root)
    (hverbose : o.verbose = 0) :
    errorText ⟨false, false⟩ (logLimit arguments) (w.run ⟨false, false⟩ sink arguments).stderr =
      String.join ((w.runVisits o root).map Visit.warning) ++
        failureLines (w.runCollection o root).failures := by
  have hlimit : logLimit arguments = .warn := by
    rw [logLimit, harguments]
    simp only [hverbose]
    rfl
  rw [hlimit, errorText_run harguments hroot hwritable, errorText_runNotices]

/-- A run whose arguments can be read and whose root leads to a directory delivers the document of
one collection, and says what could not be read. -/
theorem run_delivers (w : World) (colours : Terminal.Colours) (sink : Sink) (arguments : List Bytes)
    (o : Options) (root : Path) (hw : w.Valid) (harguments : Options.ofArguments arguments = .ok o)
    (hroot : w.projectRoot o.root = .ok root) : w.Delivers colours sink arguments o root := by
  refine ⟨?_, ?_, ?_, ?_, ?_, ?_, ?_⟩
  · intro hstdout hsink
    rw [run_eq harguments hroot, if_pos hstdout, hsink, printDocument_open]
    exact ⟨rfl, rfl, rfl⟩
  · intro hstdout hwritten
    rw [run_eq harguments hroot, hstdout, if_neg Bool.false_ne_true, world_saveDocument hwritten]
    exact follow_of_writeDocument hwritten
  · intro hstdout hwritable
    obtain ⟨rfl, houtput⟩ := hwritable
    rw [run_eq harguments hroot, hstdout, if_neg Bool.false_ne_true,
      saveDocument_open (houtput hstdout)]
    exact ⟨rfl, rfl⟩
  · rintro hverbose rfl hwritable
    exact errorText_run_eq harguments hroot hwritable hverbose
  · intro place entries hfollow
    obtain ⟨-, -, -, htop, -⟩ := follow_eq_ok_iff.1 hfollow
    refine ⟨?_, fun p cause => unlisted_mem_walk_iff hw.disk hfollow⟩
    rw [runVisits, walk_of_follow hfollow]
    exact nodup_path_descend (.directory entries) (hw.disk.node? htop)
  · rintro place entries hverbose rfl hwritable hfollow hfits
    rw [errorText_run_eq harguments hroot hwritable hverbose,
      join_warning_of_fits hw.disk hfollow hfits]
    simp
  · intro s place entries hsorted hgiven hs hfollow hunlimited hunlimited'
    rw [hgiven] at hroot
    have hsame := collectDocument_eq hw hs hroot hfollow hunlimited hunlimited'
    rw [hsame, runCollection, hsorted]
    rfl

/-- What `--root=/p/a` asks for. -/
def sampleOptions : Options := { Options.none with root := some (.ofString "/p/a") }

/-- A run on the directory `a` of the small project saves its document, says nothing of failures,
and the library gives the same one. -/
theorem run_delivers_sample :
    sample.Valid ∧ Options.ofArguments [Bytes.ofString "--root=/p/a"] = .ok sampleOptions ∧
      sample.projectRoot (some (.ofString "/p/a")) = .ok (.ofString "/p/a") ∧
      sample.Writable .open sampleOptions (.ofString "/p/a") ∧
      sample.Unlimited .builtin (.ofString "/p/a") Disk.headers ∧
      (∃ place node,
        (sample.run ⟨false, false⟩ .open [Bytes.ofString "--root=/p/a"]).world.follow
          (sample.outputPath none) = .ok (place, node) ∧
        (node = .file
            (Bytes.ofString (sample.runCollection sampleOptions (.ofString "/p/a")).render) ∨
          (sample.run ⟨false, false⟩ .open [Bytes.ofString "--root=/p/a"]).world =
              (sample.prepareParent (sample.outputPath none)).1 ∧
            ∃ kind, node = .device kind)) ∧
      errorText ⟨false, false⟩ (logLimit [Bytes.ofString "--root=/p/a"])
          (sample.run ⟨false, false⟩ .open [Bytes.ofString "--root=/p/a"]).stderr =
        failureLines (sample.runCollection sampleOptions (.ofString "/p/a")).failures ∧
      (sample.collectDocument (.ofString "/p/a")).1 =
        (sample.runCollection sampleOptions (.ofString "/p/a")).render := by
  have hvalid : sample.Valid := ⟨Disk.valid_sample, Disk.project, rfl⟩
  have harguments : Options.ofArguments [Bytes.ofString "--root=/p/a"] = .ok sampleOptions := rfl
  have hroot : sample.projectRoot (some (.ofString "/p/a")) = .ok (.ofString "/p/a") := rfl
  have hfollow : sample.follow (.ofString "/p/a") =
      .ok (.named [[0x70], [0x61]], .directory Disk.headers) := rfl
  have hwritable : sample.Writable .open sampleOptions (.ofString "/p/a") := ⟨rfl, fun _ => rfl⟩
  have hreach :
      (Path.ofString "/p/a").bytes.length + (Node.directory Disk.headers).reach < maxPath := by
    decide
  have hunlimited : sample.Unlimited .builtin (.ofString "/p/a") Disk.headers :=
    unlimited_of_no_links Disk.valid_sample hfollow hreach Disk.at?_headers_ne_link
  have hdelivers := run_delivers sample ⟨false, false⟩ .open [Bytes.ofString "--root=/p/a"]
    sampleOptions (.ofString "/p/a") hvalid harguments hroot
  exact ⟨hvalid, harguments, hroot, hwritable, hunlimited, hdelivers.saved rfl rfl,
    hdelivers.told _ _ rfl rfl hwritable hfollow (fits_of_reach hreach),
    hdelivers.library _ _ _ rfl rfl (by decide) hfollow hunlimited hunlimited⟩

/-- What `--stdout` asks for. -/
def printingOptions : Options := { Options.none with stdout := true }

/-- The nested directories, seen from above. -/
def deepBelow : World := { deep 16 with cwd := .named [] }

/-- Where a directory has a path that is too long, standard error is not only about files that could not
be read: there is none, and the run warns of the directory. -/
theorem run_warns_of_deep_directory :
    deepBelow.Valid ∧ Options.ofArguments [Bytes.ofString "--stdout"] = .ok printingOptions ∧
      printingOptions.stdout = true ∧ printingOptions.verbose = 0 ∧
      deepBelow.projectRoot printingOptions.root = .ok (.ofTrail []) ∧
      (deepBelow.run ⟨false, false⟩ .open [Bytes.ofString "--stdout"]).exitCode = 0 ∧
      errorText ⟨false, false⟩ (logLimit [Bytes.ofString "--stdout"])
          (deepBelow.run ⟨false, false⟩ .open [Bytes.ofString "--stdout"]).stderr ≠
        failureLines (deepBelow.runCollection printingOptions (.ofTrail [])).failures := by
  have hvalid : deepBelow.Valid := ⟨(valid_deep 16).disk, nested 16, rfl⟩
  have harguments : Options.ofArguments [Bytes.ofString "--stdout"] = .ok printingOptions := rfl
  have hroot : deepBelow.projectRoot printingOptions.root = .ok (.ofTrail []) := by decide +kernel
  have hwritable : deepBelow.Writable .open printingOptions (.ofTrail []) := ⟨rfl, fun h => by cases h⟩
  have hunlisted : Visit.unlisted
      ((Path.ofTrail []).joinAll (List.replicate 15 longName ++ [longName])) (.os .nameTooLong) ∈
      deepBelow.runVisits printingOptions (.ofTrail []) :=
    unlisted_mem_walk_deep rfl hvalid.disk (node?_deep 16)
  have hprints : printingOptions.stdout = true := rfl
  refine ⟨hvalid, harguments, hprints, rfl, hroot, ?_, ?_⟩
  · rw [run_eq harguments hroot, if_pos hprints, printDocument_open]
    rfl
  · rw [errorText_run_eq harguments hroot hwritable rfl]
    -- the lines about files are the same, so the warnings would have to be empty
    intro heq
    exact join_warning_ne_empty hunlisted (String.append_eq_right_iff.1 heq)

end World

end SourceBundle
