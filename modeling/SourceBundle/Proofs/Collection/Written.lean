import SourceBundle.Proofs.Collection.Selection
import SourceBundle.Proofs.Disk.Saving
import SourceBundle.Proofs.Text.Newline

/-!
A document collected again. A document that is written below the root of a sorted collection, under a
name that the rules select, is collected with its line ends folded. Beside it the collection is what
it was: the directories that were made for it hold no other file, and a sorted collection is told by
its members alone. A device keeps nothing of what is written to it, and then all is spared.
-/

namespace SourceBundle

namespace World

variable {w w' : World} {rules : Rules} {root path : Path} {entries entries' found : Listing}
  {dirs names trail : List Name} {name : Name} {place : Place} {node : Node} {content : Bytes}

/-! ### Selection without links -/

/-- Without links the selected files are those of the tree that stand in directories which a walk comes
to. -/
theorem selects_iff_of_linkless (hdisk : w.disk.Valid) (hlinks : w.disk.Linkless)
    (hroot : w.follow root = .ok (.named trail, .directory entries)) :
    w.Selects rules root entries dirs name ↔
      (∃ node, w.disk.node? (.named (trail ++ (dirs ++ [name]))) = some node ∧
        node.isDirectory = false) ∧
      (∀ dir ∈ dirs, rules.exclusion.excludes (Utf8.replaceBroken dir) = false) ∧
      rules.inclusion.selects (Utf8.replaceBroken name) = true ∧
      (root.joinAll dirs).refusal? = none := by
  obtain ⟨hrefusal, -, -, htop, -⟩ := follow_eq_ok_iff.1 hroot
  have hvalid := hdisk.node? htop
  rw [Disk.node?_append htop]
  constructor
  · rintro ⟨found, node, henters, hmem, hrank, hselects⟩
    exact ⟨⟨node, henters.at?_concat hvalid hmem, (ranksAsDirectory_eq_false_iff.1 hrank).1⟩,
      henters.kept, hselects, henters.refusal? hrefusal⟩
  · rintro ⟨⟨node, hat, hleaf⟩, hkept, hselects, hdirs⟩
    obtain ⟨found, hfound, hfind⟩ := Node.at?_concat_eq_some hat
    refine ⟨found, node, enters_of_short hrefusal hvalid hfound (refusal?_eq_none_iff.1 hdirs).2.2
      hkept, Listing.mem_of_find? hfind, ranksAsDirectory_eq_false_iff.2 ⟨hleaf, ?_⟩, hselects⟩
    rintro target rfl
    exact absurd ((Disk.node?_append htop _).trans hat) (hlinks _ target)

/-- Without links a selected file is read, as long as its path is not too long. -/
theorem Selects.read (h : w.Selects rules root entries dirs name) (hdisk : w.disk.Valid)
    (hlinks : w.disk.Linkless) (hroot : w.follow root = .ok (.named trail, .directory entries)) :
    ∃ node, w.disk.node? (.named (trail ++ (dirs ++ [name]))) = some node ∧
      node.isDirectory = false ∧
      w.read (root.joinAll (dirs ++ [name])) =
        match (root.joinAll (dirs ++ [name])).refusal? with
        | some cause => .error cause
        | none => .ok node.content := by
  obtain ⟨-, -, -, htop, -⟩ := follow_eq_ok_iff.1 hroot
  obtain ⟨⟨node, hnode, hleaf⟩, -⟩ := (selects_iff_of_linkless hdisk hlinks hroot).1 h
  refine ⟨node, hnode, hleaf, read_below hdisk hroot ?_ hleaf ?_⟩
  · rw [← Disk.node?_append htop, hnode]
  · rintro target rfl
    exact hlinks _ target hnode

/-! ### What is spared -/

section

variable {changed : List Name → Prop} (h : w.Spares w' changed) (hdisk : w.disk.Valid)
  (hlinks : w.disk.Linkless) (hlinks' : w'.disk.Linkless)
  (hroot : w.follow root = .ok (.named trail, .directory entries))
  (hroot' : w'.follow root = .ok (.named trail, .directory entries'))

include h hdisk hlinks hlinks' hroot hroot'

/-- Of what is spared the same files are selected, and each is read as before. -/
theorem Spares.selects_iff (hspared : ¬ changed (trail ++ (dirs ++ [name]))) :
    w'.Selects rules root entries' dirs name ↔ w.Selects rules root entries dirs name := by
  rw [selects_iff_of_linkless hdisk hlinks hroot, selects_iff_of_linkless h.valid hlinks' hroot']
  refine and_congr_left' (exists_congr fun node => and_congr_left fun hleaf => ?_)
  exact h.same _ node hspared hleaf

theorem Spares.read_eq (hspared : ¬ changed (trail ++ (dirs ++ [name])))
    (hselects : w.Selects rules root entries dirs name) :
    w'.read (root.joinAll (dirs ++ [name])) = w.read (root.joinAll (dirs ++ [name])) := by
  have hselects' := (h.selects_iff hdisk hlinks hlinks' hroot hroot' hspared).2 hselects
  obtain ⟨node, hnode, hleaf, hread⟩ := hselects.read hdisk hlinks hroot
  obtain ⟨node', hnode', hleaf', hread'⟩ := hselects'.read h.valid hlinks' hroot'
  obtain rfl : node' = node := by
    rw [h.same _ node' hspared hleaf', hnode] at hnode'
    exact (Option.some.inj hnode').symm
  rw [hread, hread']

/-- So what is told of a file by its being selected and by what reading it gives is the same. -/
theorem Spares.selects_read_iff (hspared : ¬ changed (trail ++ (dirs ++ [name])))
    {result : Except IoError Bytes} :
    (w'.Selects rules root entries' dirs name ∧
        w'.read (root.joinAll (dirs ++ [name])) = result) ↔
      w.Selects rules root entries dirs name ∧
        w.read (root.joinAll (dirs ++ [name])) = result := by
  rw [h.selects_iff hdisk hlinks hlinks' hroot hroot' hspared]
  refine and_congr_right fun hselects => ?_
  rw [h.read_eq hdisk hlinks hlinks' hroot hroot' hspared hselects]

/-- Of what is spared the same files are collected. -/
theorem Spares.mem_files_iff {entry : Entry}
    (hspared : ∀ dirs name bytes, entry = .found root dirs name bytes →
      ¬ changed (trail ++ (dirs ++ [name]))) :
    entry ∈ (w'.collect ⟨rules, .sorted⟩ root).files ↔
      entry ∈ (w.collect ⟨rules, .sorted⟩ root).files := by
  rw [World.mem_files_iff hdisk hroot, World.mem_files_iff h.valid hroot']
  refine exists_congr fun dirs => exists_congr fun name => exists_congr fun bytes => ?_
  rw [← and_assoc, ← and_assoc]
  refine and_congr_left fun hentry => ?_
  exact h.selects_read_iff hdisk hlinks hlinks' hroot hroot' (hspared dirs name bytes hentry)

/-- Of what is spared the same files cannot be read. -/
theorem Spares.mem_failures_iff {failure : Failure}
    (hspared : ∀ dirs name cause, failure = .read (root.joinAll (dirs ++ [name])) cause →
      ¬ changed (trail ++ (dirs ++ [name]))) :
    failure ∈ (w'.collect ⟨rules, .sorted⟩ root).failures ↔
      failure ∈ (w.collect ⟨rules, .sorted⟩ root).failures := by
  rw [World.mem_failures_iff hroot, World.mem_failures_iff hroot']
  refine exists_congr fun dirs => exists_congr fun name => exists_congr fun cause => ?_
  rw [← and_assoc, ← and_assoc]
  refine and_congr_left fun hfailure => ?_
  exact h.selects_read_iff hdisk hlinks hlinks' hroot hroot' (hspared dirs name cause hfailure)

end

/-! ### Sorted collections -/

/-- The files of sorted collections are told by their members. -/
theorem files_eq_of_mem_iff {files files' : List Entry}
    (h : files.Pairwise fun e e' => root.Before e.path e'.path)
    (h' : files'.Pairwise fun e e' => root.Before e.path e'.path)
    (hmem : ∀ entry, entry ∈ files ↔ entry ∈ files') : files = files' :=
  eq_of_pairwise_of_mem_iff (fun _ _ _ _ => Path.Before.asymm) h h' hmem

/-- And so are their failures. -/
theorem failures_eq_of_mem_iff (hdisk : w.disk.Valid) (hdisk' : w'.disk.Valid)
    (hroot : w.follow root = .ok (place, .directory entries))
    (hroot' : w'.follow root = .ok (place, .directory entries'))
    (hmem : ∀ failure, failure ∈ (w'.collect ⟨rules, .sorted⟩ root).failures ↔
      failure ∈ (w.collect ⟨rules, .sorted⟩ root).failures) :
    (w'.collect ⟨rules, .sorted⟩ root).failures = (w.collect ⟨rules, .sorted⟩ root).failures := by
  refine eq_of_pairwise_of_mem_iff ?_ (pairwise_failures hdisk' hroot' rfl)
    (pairwise_failures hdisk hroot rfl) hmem
  intro f hf f' hf' hbefore hbefore'
  obtain ⟨_, _, _, -, -, hfailure⟩ := (World.mem_failures_iff hroot').1 hf
  obtain ⟨_, _, _, -, -, hfailure'⟩ := (World.mem_failures_iff hroot').1 hf'
  exact (hbefore _ _ hfailure _ _ hfailure').asymm (hbefore' _ _ hfailure' _ _ hfailure)

/-- Where everything is spared, the sorted collection is what it was. -/
theorem Spares.collect (h : w.Spares w' fun _ => False) (hdisk : w.disk.Valid)
    (hlinks : w.disk.Linkless) (hroot : w.follow root = .ok (.named trail, .directory entries))
    (hroot' : w'.follow root = .ok (.named trail, .directory entries')) :
    w'.collect ⟨rules, .sorted⟩ root = w.collect ⟨rules, .sorted⟩ root := by
  have hlinks' := h.linkless hlinks
  have hfiles : (w'.collect ⟨rules, .sorted⟩ root).files = (w.collect ⟨rules, .sorted⟩ root).files :=
    files_eq_of_mem_iff (pairwise_files h.valid hroot' rfl) (pairwise_files hdisk hroot rfl)
      fun _ => h.mem_files_iff hdisk hlinks hlinks' hroot hroot' fun _ _ _ _ => id
  have hfailures : (w'.collect ⟨rules, .sorted⟩ root).failures =
      (w.collect ⟨rules, .sorted⟩ root).failures :=
    failures_eq_of_mem_iff hdisk h.valid hroot hroot'
      fun _ => h.mem_failures_iff hdisk hlinks hlinks' hroot hroot' fun _ _ _ _ => id
  exact (Collection.mk.injEq ..).mpr ⟨hfiles, hfailures⟩

/-! ### The document itself -/

/-- Without links a path that the system takes is not among the failures. -/
theorem read_notMem_failures (hdisk : w.disk.Valid) (hlinks : w.disk.Linkless)
    (hroot : w.follow root = .ok (.named trail, .directory entries))
    (hrefusal : (root.joinAll names).refusal? = none) (cause : IoError) :
    .read (root.joinAll names) cause ∉ (w.collect ⟨rules, .sorted⟩ root).failures := by
  rw [World.mem_failures_iff hroot]
  rintro ⟨dirs, name, cause', hselects, hread, hfailure⟩
  obtain ⟨hpath, -⟩ := Failure.read.inj hfailure
  obtain ⟨_, -, -, hread'⟩ := hselects.read hdisk hlinks hroot
  rw [← hpath, hrefusal] at hread'
  rw [← hpath, hread'] at hread
  cases hread

/-- The document is selected, and is read as what was written. -/
theorem Saved.selects (h : w.Saved w' (trail ++ (dirs ++ [name])) content)
    (hlinks : w.disk.Linkless)
    (hroot' : w'.follow root = .ok (.named trail, .directory entries'))
    (hnames : ∀ n ∈ dirs ++ [name], Name.Valid n)
    (hkept : ∀ dir ∈ dirs, rules.exclusion.excludes (Utf8.replaceBroken dir) = false)
    (hselected : rules.inclusion.selects (Utf8.replaceBroken name) = true)
    (hrefusal : (root.joinAll (dirs ++ [name])).refusal? = none) :
    w'.Selects rules root entries' dirs name ∧
      w'.read (root.joinAll (dirs ++ [name])) = .ok content := by
  obtain ⟨hrefusal', -, -, -, -⟩ := follow_eq_ok_iff.1 hroot'
  have hdirs : (root.joinAll dirs).refusal? = none :=
    refusal?_of_joinAll hrefusal' (fun n hn => hnames n (List.mem_append_left _ hn)) hrefusal
  have hselects : w'.Selects rules root entries' dirs name :=
    (selects_iff_of_linkless h.valid (h.linkless hlinks) hroot').2
      ⟨⟨_, h.file, rfl⟩, hkept, hselected, hdirs⟩
  refine ⟨hselects, ?_⟩
  obtain ⟨node, hnode, -, hread⟩ := hselects.read h.valid (h.linkless hlinks) hroot'
  obtain rfl := Option.some.inj (h.file.symm.trans hnode)
  rw [hread, hrefusal]
  rfl

/-- Once a document is saved below the root of a sorted collection, under a name that the rules select,
it is collected, and everything else is collected as it was. -/
theorem Saved.collect (h : w.Saved w' (trail ++ (dirs ++ [name])) content) (hdisk : w.disk.Valid)
    (hlinks : w.disk.Linkless) (hroot : w.follow root = .ok (.named trail, .directory entries))
    (hroot' : w'.follow root = .ok (.named trail, .directory entries'))
    (hnames : ∀ n ∈ dirs ++ [name], Name.Valid n)
    (hkept : ∀ dir ∈ dirs, rules.exclusion.excludes (Utf8.replaceBroken dir) = false)
    (hselected : rules.inclusion.selects (Utf8.replaceBroken name) = true)
    (hrefusal : (root.joinAll (dirs ++ [name])).refusal? = none) :
    (w'.collect ⟨rules, .sorted⟩ root).files.filter
        (fun e => e.relativePath = .ofNames (dirs ++ [name])) = [.found root dirs name content] ∧
      (w'.collect ⟨rules, .sorted⟩ root).files.filter
          (fun e => e.relativePath ≠ .ofNames (dirs ++ [name])) =
        (w.collect ⟨rules, .sorted⟩ root).files.filter
          (fun e => e.relativePath ≠ .ofNames (dirs ++ [name])) ∧
      (w'.collect ⟨rules, .sorted⟩ root).failures = (w.collect ⟨rules, .sorted⟩ root).failures := by
  obtain ⟨-, -, -, htop, -⟩ := follow_eq_ok_iff.1 hroot'
  have hfiles : (w.collect ⟨rules, .sorted⟩ root).files.Pairwise _ :=
    pairwise_files hdisk hroot rfl
  have hfiles' : (w'.collect ⟨rules, .sorted⟩ root).files.Pairwise _ :=
    pairwise_files h.valid hroot' rfl
  -- a file or a failure with another path is of an entry beside the document
  have hother : ∀ {dirs' : List Name} {name' : Name}, dirs' ++ [name'] ≠ dirs ++ [name] →
      trail ++ (dirs' ++ [name']) ≠ trail ++ (dirs ++ [name]) :=
    fun hne heq => hne (List.append_cancel_left heq)
  refine ⟨?_, ?_, ?_⟩
  · -- the document alone has its relative path
    refine files_eq_of_mem_iff (hfiles'.filter _) (List.pairwise_singleton _ _) ?_
    intro entry
    rw [List.mem_filter, decide_eq_true_eq, List.mem_singleton, World.mem_files_iff h.valid hroot']
    obtain ⟨hselects, hread⟩ := h.selects hlinks hroot' hnames hkept hselected hrefusal
    constructor
    · rintro ⟨⟨dirs', name', bytes, hselects', hread', rfl⟩, hpath⟩
      have hsteps := congrArg Path.steps hpath
      simp only [Entry.found] at hsteps
      rw [Path.steps_ofNames (hselects'.chain_valid (h.valid.node? htop)),
        Path.steps_ofNames hnames] at hsteps
      obtain ⟨rfl, hlast⟩ := List.append_inj' hsteps rfl
      obtain rfl := List.singleton_inj.1 hlast
      rw [hread] at hread'
      rw [Except.ok.inj hread']
    · rintro rfl
      exact ⟨⟨dirs, name, content, hselects, hread, rfl⟩, rfl⟩
  · refine files_eq_of_mem_iff (hfiles'.filter _) (hfiles.filter _) ?_
    intro entry
    rw [List.mem_filter, List.mem_filter]
    refine and_congr_left ?_
    intro hbeside
    refine h.toSpares.mem_files_iff hdisk hlinks (h.linkless hlinks) hroot hroot' ?_
    rintro dirs' name' bytes rfl
    refine hother ?_
    intro heq
    simp [Entry.found, heq] at hbeside
  · refine failures_eq_of_mem_iff hdisk h.valid hroot hroot' ?_
    intro failure
    by_cases hbeside : ∃ cause, failure = .read (root.joinAll (dirs ++ [name])) cause
    · obtain ⟨cause, rfl⟩ := hbeside
      exact iff_of_false
        (read_notMem_failures h.valid (h.linkless hlinks) hroot' hrefusal cause)
        (read_notMem_failures hdisk hlinks hroot hrefusal cause)
    · refine h.toSpares.mem_failures_iff hdisk hlinks (h.linkless hlinks) hroot hroot' ?_
      rintro dirs' name' cause rfl
      refine hother ?_
      intro heq
      exact hbeside ⟨cause, by rw [heq]⟩

/-- A document that is written below the root of a sorted collection on a disk without links, in
directories that are not left out and under a name that is selected: the collection then has one file
of that path, which is the document with its line ends folded, and all other files and the failures are
those that it had before, in the same order. Disks of directories and files are meant; where a device
stands, it keeps nothing of the document, and the collection stays as it was. -/
theorem collect_written (w w' : World) (rules : Rules) (root : Path) (place : Place)
    (entries : Listing) (dirs : List Name) (name : Name) (text : String) (hdisk : w.disk.Valid)
    (hlinks : w.disk.Linkless) (hroot : w.follow root = .ok (place, .directory entries))
    (hnames : ∀ n ∈ dirs ++ [name], Name.Normal n)
    (hkept : ∀ dir ∈ dirs, rules.exclusion.excludes (Utf8.replaceBroken dir) = false)
    (hselected : rules.inclusion.selects (Utf8.replaceBroken name) = true)
    (hwrite : w.writeDocument (root.joinAll (dirs ++ [name])) text = (w', .ok ())) :
    ((∀ kind, (Node.directory entries).at? (dirs ++ [name]) ≠ some (.device kind)) →
      ∃ content : String,
        (w'.collect ⟨rules, .sorted⟩ root).files.filter
            (fun e => e.relativePath = .ofNames (dirs ++ [name])) =
          [⟨root.joinAll (dirs ++ [name]), .ofNames (dirs ++ [name]),
            languageTag (Utf8.replaceBroken name), content⟩] ∧
        content.toList = Newline.unify text.toList ∧ ('\r' ∉ text.toList → content = text)) ∧
    (w'.collect ⟨rules, .sorted⟩ root).files.filter
        (fun e => e.relativePath ≠ .ofNames (dirs ++ [name])) =
      (w.collect ⟨rules, .sorted⟩ root).files.filter
        (fun e => e.relativePath ≠ .ofNames (dirs ++ [name])) ∧
    (w'.collect ⟨rules, .sorted⟩ root).failures = (w.collect ⟨rules, .sorted⟩ root).failures ∧
    ∀ kind, (Node.directory entries).at? (dirs ++ [name]) = some (.device kind) →
      w'.collect ⟨rules, .sorted⟩ root = w.collect ⟨rules, .sorted⟩ root := by
  obtain ⟨hrefusal, hvalid, trail, rfl, hwritten⟩ :=
    saved_of_writeDocument hdisk hlinks hroot hnames (by simp) hwrite
  rcases hwritten with ⟨hnodevice, hsaved⟩ | ⟨⟨kind, hdevice⟩, hspares⟩
  · obtain ⟨found, hroot', -, hdirectory⟩ := follow_of_keeps hsaved.keeps hroot
    rw [← hsaved.rest, Node.eq_directory hdirectory] at hroot'
    obtain ⟨hdocument, hbeside, hfailures⟩ :=
      hsaved.collect hdisk hlinks hroot hroot' hvalid hkept hselected hrefusal
    have hcontent : (Text.ofBytes (Bytes.ofString text)).toList = Newline.unify text.toList := by
      rw [Text.ofBytes, String.toList_ofList, Text.charsOfBytes_ofString]
    refine ⟨fun _ => ⟨_, hdocument, hcontent, ?_⟩, hbeside, hfailures, ?_⟩
    · intro hnone
      rw [← String.toList_inj, hcontent, Newline.unify_of_notMem hnone]
    · intro kind hdevice
      exact absurd hdevice (hnodevice kind)
  · obtain ⟨found, hroot', -, hdirectory⟩ := follow_of_keeps hspares.keeps hroot
    rw [← hspares.rest, Node.eq_directory hdirectory] at hroot'
    have hsame : w'.collect ⟨rules, .sorted⟩ root = w.collect ⟨rules, .sorted⟩ root :=
      hspares.collect hdisk hlinks hroot hroot'
    rw [hsame]
    exact ⟨fun hnodevice => absurd hdevice (hnodevice kind), rfl, rfl, fun _ _ => rfl⟩

/-- On a disk that holds one header, a document `m/n.c` with a CR LF and a CR is collected with two LF,
beside the header. -/
theorem collect_written_headers :
    let w : World := { sample with disk := ⟨Disk.headers⟩, cwd := .named [] }
    let w' := (w.writeDocument (.ofString "/m/n.c") "a\r\nb\r").1
    w.disk.Valid ∧ w.disk.Linkless ∧
      w.follow (.ofString "/") = .ok (.named [], .directory Disk.headers) ∧
      (∀ n ∈ [Bytes.ofString "m"] ++ [Bytes.ofString "n.c"], Name.Normal n) ∧
      Rules.builtin.exclusion.excludes (Utf8.replaceBroken (Bytes.ofString "m")) = false ∧
      Rules.builtin.inclusion.selects (Utf8.replaceBroken (Bytes.ofString "n.c")) = true ∧
      w.writeDocument (.ofString "/m/n.c") "a\r\nb\r" = (w', .ok ()) ∧
      ∃ content : String,
        (w'.collect ⟨.builtin, .sorted⟩ (.ofString "/")).files.filter
            (fun e => e.relativePath = .ofString "m/n.c") =
          [⟨.ofString "/m/n.c", .ofString "m/n.c", "c", content⟩] ∧
        content.toList = "a\nb\n".toList := by
  intro w w'
  have hlinks : w.disk.Linkless := Disk.at?_headers_ne_link
  have hnames : ∀ n ∈ [Bytes.ofString "m"] ++ [Bytes.ofString "n.c"], Name.Normal n := by
    have hvalid : ∀ n ∈ [Bytes.ofString "m"] ++ [Bytes.ofString "n.c"], Name.Valid n := by decide
    exact fun n hn => (hvalid n hn).normal
  have hwrite : w.writeDocument (.ofString "/m/n.c") "a\r\nb\r" = (w', .ok ()) := rfl
  have hdevice : ∀ kind, (Node.directory Disk.headers).at?
      ([Bytes.ofString "m"] ++ [Bytes.ofString "n.c"]) ≠ some (.device kind) := by
    intro kind hat
    cases hat
  obtain ⟨hdocument, -⟩ := collect_written w w' .builtin (.ofString "/") (.named []) Disk.headers
    [Bytes.ofString "m"] (Bytes.ofString "n.c") "a\r\nb\r" (by decide) hlinks rfl hnames (by decide)
    (by decide) hwrite
  obtain ⟨content, hfiles, hcontent, -⟩ := hdocument hdevice
  exact ⟨by decide, hlinks, rfl, hnames, by decide, by decide, hwrite, content, hfiles, hcontent⟩

end World

end SourceBundle
