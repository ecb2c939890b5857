import Mathlib.Data.List.Perm.Basic
import SourceBundle.Proofs.Collection.Ordered

/-!
Which files a collection holds. The tree below the root and the rules decide it together: a
candidate is what the names lead to through directories that are not left out, when it is neither a
directory nor a link to one and its own name is selected. Every candidate is read once; what can be
read is in the files and what cannot be read is in the failures. The order in which listings are
taken plays no part, so that nothing is there twice is seen on the sorted collection, where no two
chains are the same.
-/

namespace SourceBundle

namespace World

variable {w : World} {config : Config} {root path : Path} {entries found : Listing}
  {dirs : List Name} {name : Name} {place : Place} {node : Node}

/-- A file that the rules ask for, below a directory that lists `entries` and that `root` leads to:
the directories on the way are real ones and not left out, the entry itself is neither a directory
nor a link to one, and its name is selected. -/
structure Candidate (w : World) (rules : Rules) (root : Path) (entries : Listing) (dirs : List Name)
    (name : Name) : Prop where
  entry : ∃ node, (Node.directory entries).at? (dirs ++ [name]) = some node ∧
    node.isDirectory = false ∧
    ∀ target, node = .link target → w.isDirectory (root.joinAll (dirs ++ [name])) = false
  kept : ∀ dir ∈ dirs, rules.exclusion.excludes (Utf8.replaceBroken dir) = false
  selected : rules.inclusion.selects (Utf8.replaceBroken name) = true

/-- No directory that a walk comes to has a path that is too long for the system. -/
def Fits (rules : Rules) (root : Path) (entries : Listing) : Prop :=
  ∀ dirs sub, (Node.directory entries).at? dirs = some (.directory sub) →
    (∀ dir ∈ dirs, rules.exclusion.excludes (Utf8.replaceBroken dir) = false) →
    (root.joinAll dirs).bytes.length < maxPath

/-- Where all names of the tree together stay below the limit, no path is too long. -/
theorem fits_of_reach {rules : Rules}
    (h : root.bytes.length + (Node.directory entries).reach < maxPath) : Fits rules root entries := by
  intro dirs sub hat _
  have hlength := root.length_joinAll_le hat
  omega

/-! ### What is looked at -/

theorem Enters.kept {exclusion : Exclusion} (h : Enters exclusion path entries dirs found) :
    ∀ dir ∈ dirs, exclusion.excludes (Utf8.replaceBroken dir) = false := by
  induction h with
  | here => simp
  | inside _ kept _ _ ih => exact List.forall_mem_cons.2 ⟨kept, ih⟩

/-- No directory that a walk enters has a path that is too long. -/
theorem Enters.refusal? {exclusion : Exclusion} (h : Enters exclusion path entries dirs found)
    (hpath : path.refusal? = none) : (path.joinAll dirs).refusal? = none := by
  induction h with
  | here => exact hpath
  | inside _ _ taken _ ih => exact ih taken

/-- A walk enters every directory that is not left out, nor below one that is, and whose path is not too
long. -/
theorem enters_of_short {rules : Rules} (hpath : path.refusal? = none)
    (hvalid : (Node.directory entries).Valid)
    (hat : (Node.directory entries).at? dirs = some (.directory found))
    (hshort : (path.joinAll dirs).bytes.length < maxPath)
    (hkept : ∀ dir ∈ dirs, rules.exclusion.excludes (Utf8.replaceBroken dir) = false) :
    Enters rules.exclusion path entries dirs found := by
  induction dirs generalizing path entries with
  | nil =>
    obtain ⟨rfl⟩ := hat
    exact .here path _
  | cons dir dirs ih =>
    obtain ⟨hdir, hdirs⟩ := List.forall_mem_cons.1 hkept
    obtain ⟨listed, child, hentries, hfind, hchild⟩ := Node.at?_cons_eq_some hat
    obtain ⟨rfl⟩ := Node.directory.inj hentries
    obtain ⟨sub, rfl⟩ : ∃ sub, child = .directory sub := by
      cases dirs with
      | nil => exact ⟨found, Option.some.inj hchild⟩
      | cons next rest =>
        obtain ⟨sub, _, hsub, -⟩ := Node.at?_cons_eq_some hchild
        exact ⟨sub, hsub⟩
    have hname : ∀ n ∈ [dir], Name.Valid n := by
      simpa using hvalid.listing.name_of_find? hfind
    rw [Path.joinAll_cons] at hshort
    have hjoin : (path.join dir).bytes.length < maxPath :=
      Nat.lt_of_le_of_lt (Path.length_le_length_joinAll _ _) hshort
    have htaken : (path.join dir).refusal? = none := by
      have := refusal?_joinAll hpath hname
      rwa [Path.joinAll_cons, Path.joinAll_nil, if_neg (Nat.not_le.2 hjoin)] at this
    exact .inside (Listing.mem_of_find? hfind) hdir htaken
      (ih htaken (hvalid.find? hfind) hchild hshort hdirs)

/-- Where no path is too long, a walk enters all directories that are not left out. -/
theorem enters_of_fits {rules : Rules} (hpath : path.refusal? = none)
    (hvalid : (Node.directory entries).Valid) (hfits : Fits rules path entries)
    (hat : (Node.directory entries).at? dirs = some (.directory found))
    (hkept : ∀ dir ∈ dirs, rules.exclusion.excludes (Utf8.replaceBroken dir) = false) :
    Enters rules.exclusion path entries dirs found :=
  enters_of_short hpath hvalid hat (hfits dirs found hat hkept) hkept

/-- Where no path is too long, the files looked at are the candidates. -/
theorem selects_iff_candidate (hdisk : w.disk.Valid)
    (hroot : w.follow root = .ok (place, .directory entries))
    (hfits : Fits config.rules root entries) :
    w.Selects config.rules root entries dirs name ↔
      w.Candidate config.rules root entries dirs name := by
  obtain ⟨hrefusal, -, -, htop, -⟩ := follow_eq_ok_iff.1 hroot
  have hvalid := hdisk.node? htop
  constructor
  · rintro ⟨found, node, henters, hmem, hrank, hselects⟩
    exact ⟨⟨node, henters.at?_concat hvalid hmem, ranksAsDirectory_eq_false_iff.1 hrank⟩,
      henters.kept, hselects⟩
  · rintro ⟨⟨node, hat, hnode⟩, hkept, hselects⟩
    obtain ⟨found, hdirs, hfind⟩ := Node.at?_concat_eq_some hat
    exact ⟨found, node, enters_of_fits hrefusal hvalid hfits hdirs hkept,
      Listing.mem_of_find? hfind, ranksAsDirectory_eq_false_iff.2 hnode, hselects⟩

theorem visitFile_ne_unlisted {rules : Rules} {p : Path} {cause : IoError} :
    w.visitFile rules root path name ≠ .unlisted p cause := by
  by_cases hselects : rules.inclusion.selects (Utf8.replaceBroken name) = true
  · cases hread : w.read path <;> simp [visitFile, hselects, hread]
  · simp [visitFile, hselects]

/-- Where no path is too long, every directory that a walk comes to can be listed. -/
theorem unlisted_notMem_walk (hdisk : w.disk.Valid)
    (hroot : w.follow root = .ok (place, .directory entries))
    (hfits : Fits config.rules root entries)
    (p : Path) (cause : IoError) : Visit.unlisted p cause ∉ w.walk config root := by
  obtain ⟨hrefusal, -, -, htop, -⟩ := follow_eq_ok_iff.1 hroot
  have hvalid := hdisk.node? htop
  intro hmem
  rw [walk_of_follow hroot] at hmem
  obtain ⟨names, found, e, henters, he, hown⟩ := (mem_descend_iff (.directory entries)).1 hmem
  rw [Node.entries] at henters
  have hchain := henters.chain_valid hvalid he
  unfold ownVisits at hown
  split at hown
  · next hdir =>
    split at hown
    · simp at hown
    · next hkept =>
      have hat : (Node.directory entries).at? (names ++ [e.1]) = some (.directory e.2.entries) := by
        rw [henters.at?_concat hvalid he, Node.eq_directory hdir]
        rfl
      have hall : ∀ dir ∈ names ++ [e.1],
          config.rules.exclusion.excludes (Utf8.replaceBroken dir) = false := by
        intro dir hdir
        rcases List.mem_append.1 hdir with hdir | hdir
        · exact henters.kept dir hdir
        · obtain rfl := List.mem_singleton.1 hdir
          simpa using hkept
      have htaken : ((root.joinAll names).join e.1).refusal? = none := by
        have h := refusal?_joinAll hrefusal hchain
        rwa [if_neg (Nat.not_le.2 (hfits _ _ hat hall)), Path.joinAll_append] at h
      rw [htaken] at hown
      cases hown
  · split at hown
    · cases hown
    · exact absurd (List.mem_singleton.1 hown).symm visitFile_ne_unlisted

/-! ### Nothing twice -/

/-- The order in which listings are taken changes only the order of the visits. -/
theorem descend_perm_order (rules : Rules) (order order' : Order) (root path : Path) (node : Node) :
    (w.descend ⟨rules, order⟩ root path node.entries).Perm
      (w.descend ⟨rules, order'⟩ root path node.entries) := by
  induction node using Node.induct generalizing path with
  | leaf node hleaf => rw [Node.entries_of_not_directory hleaf, descend_nil, descend_nil]
  | directory entries ih =>
    refine descend_perm.trans (List.Perm.trans ?_ descend_perm.symm)
    refine List.Perm.flatMap_left _ ?_
    intro e he
    have ih := @ih e he (path.join e.1)
    cases hdir : e.2.isDirectory with
    | true =>
      rw [Node.eq_directory hdir, visits_branch_directory, visits_branch_directory]
      split
      · exact .refl _
      · split
        · exact .refl _
        · exact ih
    | false =>
      cases hrank : w.ranksAsDirectory (path.join e.1) e.2 with
      | true => rw [visits_branch_of_link hrank hdir, visits_branch_of_link hrank hdir]
      | false => rw [visits_branch_of_file hrank, visits_branch_of_file hrank]

/-- The order in which listings are taken changes only the order of the collection. -/
theorem collect_perm_order (rules : Rules) (order order' : Order) (root : Path) :
    (w.collect ⟨rules, order⟩ root).files.Perm (w.collect ⟨rules, order'⟩ root).files ∧
      (w.collect ⟨rules, order⟩ root).failures.Perm (w.collect ⟨rules, order'⟩ root).failures := by
  cases hdir : w.isDirectory root with
  | false =>
    rw [collect_of_not_directory hdir, collect_of_not_directory hdir]
    exact ⟨.refl _, .refl _⟩
  | true =>
    obtain ⟨place, entries, hroot⟩ := isDirectory_iff.1 hdir
    have hperm := w.descend_perm_order rules order order' root root (.directory entries)
    rw [collect_of_follow hroot, collect_of_follow hroot]
    exact ⟨hperm.filterMap _, hperm.filterMap _⟩

/-- No file is collected twice. -/
theorem nodup_paths (hdisk : w.disk.Valid)
    (hroot : w.follow root = .ok (place, .directory entries)) :
    ((w.collect config root).files.map (·.path)).Nodup := by
  have hperm := (w.collect_perm_order config.rules config.order .sorted root).1
  rw [(hperm.map _).nodup_iff, List.Nodup, List.pairwise_map]
  exact (pairwise_files hdisk hroot rfl).imp fun hbefore => hbefore.ne

/-- No failure is told twice. -/
theorem nodup_failures (hdisk : w.disk.Valid)
    (hroot : w.follow root = .ok (place, .directory entries)) :
    (w.collect config root).failures.Nodup := by
  have hperm := (w.collect_perm_order config.rules config.order .sorted root).2
  rw [hperm.nodup_iff]
  refine (pairwise_failures hdisk hroot rfl).imp_of_mem ?_
  rintro f f' hf - hbefore rfl
  obtain ⟨dirs, name, cause, -, -, hread⟩ := (mem_failures_iff hroot).1 hf
  exact (hbefore _ _ hread _ _ hread).ne rfl

/-! ### The selection -/

/-- A root that leads to no directory gives nothing. Below one that does, as long as no path is too
long, the files are the candidates that can be read, each of them once and with what was read, the
failures are those of the candidates that cannot be read, each of them once, and there is nothing
else. -/
theorem collect_exact (w : World) (config : Config) (root : Path) (hdisk : w.disk.Valid) :
    (w.isDirectory root = false → w.collect config root = ⟨[], []⟩) ∧
      ∀ place entries, w.follow root = .ok (place, .directory entries) →
        Fits config.rules root entries →
          (∀ entry, entry ∈ (w.collect config root).files ↔
            ∃ dirs name bytes, w.Candidate config.rules root entries dirs name ∧
              w.read (root.joinAll (dirs ++ [name])) = .ok bytes ∧
              entry = .found root dirs name bytes) ∧
          ((w.collect config root).files.map (·.path)).Nodup ∧
          (∀ failure, failure ∈ (w.collect config root).failures ↔
            ∃ dirs name cause, w.Candidate config.rules root entries dirs name ∧
              w.read (root.joinAll (dirs ++ [name])) = .error cause ∧
              failure = .read (root.joinAll (dirs ++ [name])) cause) ∧
          (w.collect config root).failures.Nodup := by
  refine ⟨collect_of_not_directory, ?_⟩
  intro place entries hroot hfits
  have hcandidate : ∀ dirs name, w.Selects config.rules root entries dirs name ↔
      w.Candidate config.rules root entries dirs name := by
    intro dirs name
    exact selects_iff_candidate hdisk hroot hfits
  refine ⟨?_, nodup_paths hdisk hroot, ?_, nodup_failures hdisk hroot⟩
  · intro entry
    rw [mem_files_iff hdisk hroot]
    simp only [hcandidate]
  · intro failure
    rw [mem_failures_iff hroot]
    simp only [hcandidate]

/-- Of the project on the small disk no file is collected twice. -/
theorem collect_exact_sample :
    Disk.sample.Valid ∧
      sample.follow ⟨[0x2F, 0x70]⟩ = .ok (.named [[0x70]], .directory Disk.project) ∧
      Fits .builtin ⟨[0x2F, 0x70]⟩ Disk.project ∧
      ((sample.collect .builtin ⟨[0x2F, 0x70]⟩).files.map (·.path)).Nodup := by
  have hroot : sample.follow ⟨[0x2F, 0x70]⟩ = .ok (.named [[0x70]], .directory Disk.project) := rfl
  have hfits : Fits .builtin ⟨[0x2F, 0x70]⟩ Disk.project := fits_of_reach (by decide)
  have hexact := (collect_exact sample .builtin ⟨[0x2F, 0x70]⟩ Disk.valid_sample).2 _ _ hroot hfits
  exact ⟨Disk.valid_sample, hroot, hfits, hexact.2.1⟩

end World

end SourceBundle
