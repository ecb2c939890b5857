import SourceBundle.Proofs.Collection.Visits

/-!
What a walk finds. A file comes into the collection, or into its failures, exactly when it is a
selected entry of a directory that the walk enters, and whatever is said of it hangs on its chain of
names alone: its path, its path as seen from the root, its tag and its text.
-/

namespace SourceBundle

/-- The entry of a file below `root`, told by the directories on the way, its name and its bytes. -/
def Entry.found (root : Path) (dirs : List Name) (name : Name) (bytes : Bytes) : Entry where
  path := root.joinAll (dirs ++ [name])
  relativePath := .ofNames (dirs ++ [name])
  lang := languageTag (Utf8.replaceBroken name)
  content := Text.ofBytes bytes

/-- The path of the selected file that a visit was to. -/
def Visit.selected? : Visit → Option Path
  | .collected entry => some entry.path
  | .unreadable path _ => some path
  | _ => none

/-- The path of the entry that a visit was to. -/
def Visit.path : Visit → Path
  | .pruned path => path
  | .unselected path => path
  | .collected entry => entry.path
  | .unreadable path _ => path
  | .unlisted path _ => path

theorem Visit.path_of_selected? {v : Visit} {p : Path} (h : p ∈ v.selected?) : v.path = p := by
  cases v <;> simp_all [selected?, path]

theorem Visit.selected?_of_entry {v : Visit} {entry : Entry} (h : v.entry? = some entry) :
    v.selected? = some entry.path := by
  cases v <;> simp_all [Visit.entry?, selected?]

theorem Visit.selected?_of_failure {v : Visit} {failure : Failure} (h : v.failure? = some failure) :
    ∃ path cause, failure = .read path cause ∧ v.selected? = some path := by
  cases v with
  | unreadable path cause =>
    obtain ⟨rfl⟩ := h
    exact ⟨path, cause, rfl, rfl⟩
  | _ => cases h

namespace World

variable {w : World} {config : Config} {rules : Rules} {root path p : Path} {node : Node}
  {entries : Listing} {name : Name} {names : List Name} {place : Place} {v : Visit}

/-! ### One visit -/

theorem path_visitFile : (w.visitFile rules root path name).path = path := by
  by_cases hselects : rules.inclusion.selects (Utf8.replaceBroken name) = true
  · cases hread : w.read path <;> simp [visitFile, hselects, hread, Visit.path]
  · simp [visitFile, hselects, Visit.path]

theorem selected?_visitFile :
    (w.visitFile rules root path name).selected? =
      if rules.inclusion.selects (Utf8.replaceBroken name) then some path else none := by
  by_cases hselects : rules.inclusion.selects (Utf8.replaceBroken name) = true
  · cases hread : w.read path <;> simp [visitFile, hselects, hread, Visit.selected?]
  · simp [visitFile, hselects, Visit.selected?]

theorem selected?_of_visitFile (hp : p ∈ (w.visitFile rules root path name).selected?) :
    p = path := by
  rw [selected?_visitFile] at hp
  split at hp
  · exact (Option.mem_some_iff.1 hp).symm
  · cases hp

theorem entry?_visitFile {entry : Entry} :
    entry ∈ Visit.entry? (w.visitFile rules root path name) ↔
      rules.inclusion.selects (Utf8.replaceBroken name) = true ∧ ∃ bytes, w.read path = .ok bytes ∧
        entry = ⟨path, (path.relativeTo? root).getD path, languageTag (Utf8.replaceBroken name),
          Text.ofBytes bytes⟩ := by
  by_cases hselects : rules.inclusion.selects (Utf8.replaceBroken name) = true
  · cases hread : w.read path <;> simp [visitFile, hselects, hread, Visit.entry?, eq_comm]
  · simp [visitFile, hselects, Visit.entry?]

theorem failure?_visitFile {failure : Failure} :
    failure ∈ (w.visitFile rules root path name).failure? ↔
      rules.inclusion.selects (Utf8.replaceBroken name) = true ∧
        ∃ cause, w.read path = .error cause ∧ failure = .read path cause := by
  by_cases hselects : rules.inclusion.selects (Utf8.replaceBroken name) = true
  · cases hread : w.read path <;> simp [visitFile, hselects, hread, Visit.failure?, eq_comm]
  · simp [visitFile, hselects, Visit.failure?]

/-! ### The files that a walk looks at -/

/-- Through the directories that a walk enters, names lead as through the tree. -/
theorem Enters.at? {exclusion : Exclusion} {found : Listing}
    (h : Enters exclusion path entries names found) (hvalid : (Node.directory entries).Valid) :
    (Node.directory entries).at? names = some (.directory found) := by
  induction h with
  | here => rfl
  | inside mem _ _ _ ih =>
    have hfind := Listing.find?_of_mem hvalid.listing.nodup mem
    rw [Node.at?_cons hfind]
    exact ih (hvalid.find? hfind)

/-- Names lead to the entries of a directory that a walk enters. -/
theorem Enters.at?_concat {exclusion : Exclusion} {found : Listing} {e : Name × Node}
    (h : Enters exclusion path entries names found) (hvalid : (Node.directory entries).Valid)
    (he : e ∈ found) : (Node.directory entries).at? (names ++ [e.1]) = some e.2 := by
  have hat := h.at? hvalid
  have hfind := Listing.find?_of_mem (hvalid.at? hat).listing.nodup he
  rw [Node.at?_append, hat, Option.bind_some, Node.at?_cons hfind]
  rfl

/-- The chain of an entry that a walk looks at consists of valid names. -/
theorem Enters.chain_valid {exclusion : Exclusion} {found : Listing} {e : Name × Node}
    (h : Enters exclusion path entries names found) (hvalid : (Node.directory entries).Valid)
    (he : e ∈ found) : ∀ name ∈ names ++ [e.1], Name.Valid name :=
  hvalid.names (h.at?_concat hvalid he)

/-- A selected file below the root of a walk: the walk enters the directory that holds it, where it
does not rank with the directories. -/
def Selects (w : World) (rules : Rules) (root : Path) (entries : Listing) (dirs : List Name)
    (name : Name) : Prop :=
  ∃ found node, Enters rules.exclusion root entries dirs found ∧ (name, node) ∈ found ∧
    w.ranksAsDirectory (root.joinAll (dirs ++ [name])) node = false ∧
    rules.inclusion.selects (Utf8.replaceBroken name) = true

theorem Selects.chain_valid {dirs : List Name} (h : w.Selects rules root entries dirs name)
    (hvalid : (Node.directory entries).Valid) : ∀ n ∈ dirs ++ [name], Name.Valid n := by
  obtain ⟨found, node, henters, hmem, -, -⟩ := h
  exact henters.chain_valid hvalid hmem

/-- An entry's own visit to a selected file is the look at it. -/
theorem mem_ownVisits_iff (hv : v.selected? ≠ none) {dir : Path} {e : Name × Node} :
    v ∈ w.ownVisits config root dir e ↔
      w.ranksAsDirectory (dir.join e.1) e.2 = false ∧
        v = w.visitFile config.rules root (dir.join e.1) e.1 := by
  unfold ownVisits
  cases hdir : e.2.isDirectory with
  | true =>
    have hrank : w.ranksAsDirectory (dir.join e.1) e.2 = true := by
      rw [Node.eq_directory hdir]
      rfl
    rw [if_pos rfl, hrank]
    split
    · simp only [List.mem_singleton, Bool.true_eq_false, false_and, iff_false]
      rintro rfl
      exact hv rfl
    · simp only [List.mem_map, Bool.true_eq_false, false_and, iff_false]
      rintro ⟨cause, -, rfl⟩
      exact hv rfl
  | false =>
    rw [if_neg Bool.false_ne_true]
    cases hrank : w.ranksAsDirectory (dir.join e.1) e.2 <;> simp

theorem Selects.inclusion {dirs : List Name} (h : w.Selects rules root entries dirs name) :
    rules.inclusion.selects (Utf8.replaceBroken name) = true := by
  obtain ⟨_, _, -, -, -, hselects⟩ := h
  exact hselects

/-- The visits to selected files are those that look at them. -/
theorem mem_descend_iff_selects (node : Node) (hv : v.selected? ≠ none) :
    v ∈ w.descend config root path node.entries ↔
      ∃ dirs name, w.Selects config.rules path node.entries dirs name ∧
        v = w.visitFile config.rules root (path.joinAll (dirs ++ [name])) name := by
  have hlast : ∀ (dirs : List Name) (name : Name),
      path.joinAll (dirs ++ [name]) = (path.joinAll dirs).join name := fun dirs name => by
    rw [Path.joinAll_append]
    rfl
  rw [mem_descend_iff]
  constructor
  · rintro ⟨names, found, e, henters, he, hvisit⟩
    obtain ⟨hrank, rfl⟩ := (mem_ownVisits_iff hv).1 hvisit
    have hselects : config.rules.inclusion.selects (Utf8.replaceBroken e.1) = true := by
      rw [selected?_visitFile] at hv
      by_contra hnot
      exact hv (if_neg hnot)
    rw [← hlast] at hrank ⊢
    exact ⟨names, e.1, ⟨found, e.2, henters, he, hrank, hselects⟩, rfl⟩
  · rintro ⟨dirs, name, ⟨found, node, henters, hmem, hrank, -⟩, rfl⟩
    rw [hlast] at hrank hv ⊢
    exact ⟨dirs, found, (name, node), henters, hmem, (mem_ownVisits_iff hv).2 ⟨hrank, rfl⟩⟩

/-- Every selected file is looked at. -/
theorem Selects.visited {dirs : List Name} (h : w.Selects config.rules path entries dirs name) :
    w.visitFile config.rules root (path.joinAll (dirs ++ [name])) name ∈
      w.descend config root path entries := by
  refine (mem_descend_iff_selects (.directory entries) ?_).2 ⟨dirs, name, h, rfl⟩
  rw [selected?_visitFile, if_pos h.inclusion]
  simp

theorem path_ownVisits {dir : Path} {e : Name × Node} (h : v ∈ w.ownVisits config root dir e) :
    v.path = dir.join e.1 := by
  unfold ownVisits at h
  split at h
  · split at h
    · rw [List.mem_singleton.1 h, Visit.path]
    · obtain ⟨cause, -, rfl⟩ := List.mem_map.1 h
      rfl
  · split at h
    · cases h
    · rw [List.mem_singleton.1 h, path_visitFile]

/-- Visits below a directory are to paths that go on from the directory's by valid names. -/
theorem path_descend (hvalid : node.Valid) (h : v ∈ w.descend config root path node.entries) :
    ∃ a, a ≠ [] ∧ (∀ name ∈ a, Name.Valid name) ∧ v.path = path.joinAll a := by
  cases hdir : node.isDirectory with
  | false =>
    rw [Node.entries_of_not_directory hdir, descend_nil] at h
    cases h
  | true =>
    obtain ⟨names, found, e, henters, he, hown⟩ := (mem_descend_iff node).1 h
    rw [Node.eq_directory hdir] at hvalid
    refine ⟨names ++ [e.1], by simp, henters.chain_valid hvalid he, ?_⟩
    rw [path_ownVisits hown, Path.joinAll_append]
    rfl

/-- A selected file below a directory has a path that goes on from the directory's by valid
names. -/
theorem selected?_descend (hvalid : node.Valid) (h : v ∈ w.descend config root path node.entries)
    (hp : p ∈ v.selected?) : ∃ a, a ≠ [] ∧ (∀ name ∈ a, Name.Valid name) ∧ p = path.joinAll a := by
  rw [← Visit.path_of_selected? hp]
  exact path_descend hvalid h

/-! ### The collection -/

theorem collect_of_follow (hroot : w.follow root = .ok (place, .directory entries)) :
    w.collect config root = .ofVisits (w.descend config root root entries) := by
  rw [collect, walk_of_follow hroot]

/-- The files of a collection are the selected files that can be read, each with its path compared with
that of the root. -/
theorem mem_files_compared (hroot : w.follow root = .ok (place, .directory entries))
    {entry : Entry} :
    entry ∈ (w.collect config root).files ↔
      ∃ dirs name bytes, w.Selects config.rules root entries dirs name ∧
        w.read (root.joinAll (dirs ++ [name])) = .ok bytes ∧
        entry = ⟨root.joinAll (dirs ++ [name]),
          ((root.joinAll (dirs ++ [name])).relativeTo? root).getD (root.joinAll (dirs ++ [name])),
          languageTag (Utf8.replaceBroken name), Text.ofBytes bytes⟩ := by
  rw [collect_of_follow hroot]
  simp only [Collection.ofVisits, List.mem_filterMap]
  constructor
  · rintro ⟨v, hv, hentry⟩
    have hselected : v.selected? ≠ none := by
      rw [Visit.selected?_of_entry hentry]
      simp
    obtain ⟨dirs, name, hselects, rfl⟩ :=
      (mem_descend_iff_selects (.directory entries) hselected).1 hv
    obtain ⟨-, bytes, hread, rfl⟩ := entry?_visitFile.1 hentry
    exact ⟨dirs, name, bytes, hselects, hread, rfl⟩
  · rintro ⟨dirs, name, bytes, hselects, hread, rfl⟩
    exact ⟨_, hselects.visited, entry?_visitFile.2 ⟨hselects.inclusion, bytes, hread, rfl⟩⟩

/-- On a valid disk these are told by their chains of names alone. -/
theorem mem_files_iff (hdisk : w.disk.Valid)
    (hroot : w.follow root = .ok (place, .directory entries))
    {entry : Entry} :
    entry ∈ (w.collect config root).files ↔
      ∃ dirs name bytes, w.Selects config.rules root entries dirs name ∧
        w.read (root.joinAll (dirs ++ [name])) = .ok bytes ∧
        entry = .found root dirs name bytes := by
  obtain ⟨-, -, -, htop, -⟩ := follow_eq_ok_iff.1 hroot
  rw [mem_files_compared hroot]
  refine exists_congr fun dirs => exists_congr fun name => exists_congr fun bytes =>
    and_congr_right fun hselects => ?_
  rw [Path.relativeTo?_joinAll root (hselects.chain_valid (hdisk.node? htop))]
  rfl

/-- The failures of a collection are those of the selected files that cannot be read. -/
theorem mem_failures_iff (hroot : w.follow root = .ok (place, .directory entries))
    {failure : Failure} :
    failure ∈ (w.collect config root).failures ↔
      ∃ dirs name cause, w.Selects config.rules root entries dirs name ∧
        w.read (root.joinAll (dirs ++ [name])) = .error cause ∧
        failure = .read (root.joinAll (dirs ++ [name])) cause := by
  rw [collect_of_follow hroot]
  simp only [Collection.ofVisits, List.mem_filterMap]
  constructor
  · rintro ⟨v, hv, hfailure⟩
    have hselected : v.selected? ≠ none := by
      obtain ⟨path, cause, -, hpath⟩ := Visit.selected?_of_failure hfailure
      rw [hpath]
      simp
    obtain ⟨dirs, name, hselects, rfl⟩ :=
      (mem_descend_iff_selects (.directory entries) hselected).1 hv
    obtain ⟨-, cause, hread, rfl⟩ := failure?_visitFile.1 hfailure
    exact ⟨dirs, name, cause, hselects, hread, rfl⟩
  · rintro ⟨dirs, name, cause, hselects, hread, rfl⟩
    exact ⟨_, hselects.visited, failure?_visitFile.2 ⟨hselects.inclusion, cause, hread, rfl⟩⟩

end World

end SourceBundle
