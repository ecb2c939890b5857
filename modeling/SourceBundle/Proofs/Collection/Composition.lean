import SourceBundle.Proofs.Collection.Rerooting

/-!
How a collection is made of smaller ones. What is collected below a directory is what the directory
holds itself, followed, for each subdirectory that is not left out, by what is collected below that
subdirectory on its own. Nothing changes on the way up but the path as seen from the root, which
grows by the subdirectory's name in front.
-/

namespace SourceBundle

/-- A collected file as seen from one directory further up. -/
def Entry.under (name : Name) (e : Entry) : Entry :=
  { e with relativePath := (⟨name⟩ : Path).join e.relativePath.bytes }

theorem Entry.under_found {root : Path} {name last : Name} {dirs : List Name} (bytes : Bytes)
    (h : ∀ n ∈ name :: (dirs ++ [last]), Name.Valid n) :
    (Entry.found (root.join name) dirs last bytes).under name =
      .found root (name :: dirs) last bytes := by
  obtain ⟨-, hrest⟩ := List.forall_mem_cons.1 h
  simp only [Entry.under, Entry.found, Path.join_ofNames ⟨name⟩ hrest (by simp)]
  rfl

namespace World

variable {w : World} {config : Config} {root : Path} {entries : Listing} {name : Name}
  {place : Place} {node : Node}

/-- The selected entries of a directory itself that do not rank with the directories, in order. -/
def ownSelected (w : World) (config : Config) (root : Path) (entries : Listing) : Listing :=
  (entries.inOrder config.order).filter fun e =>
    !w.ranksAsDirectory (root.join e.1) e.2 &&
      config.rules.inclusion.selects (Utf8.replaceBroken e.1)

/-- The file under a name of the root itself, if it can be read. -/
def ownFile? (w : World) (root : Path) (name : Name) : Option Entry :=
  match w.read (root.join name) with
  | .ok bytes => some (.found root [] name bytes)
  | .error _ => none

/-- The failure of the file under a name of the root itself, if it cannot be read. -/
def ownFailure? (w : World) (root : Path) (name : Name) : Option Failure :=
  match w.read (root.join name) with
  | .ok _ => none
  | .error cause => some (.read (root.join name) cause)

/-- The real subdirectories that are not left out, in order. -/
def subdirectories (config : Config) (entries : Listing) : Listing :=
  (entries.inOrder config.order).filter fun e =>
    e.2.isDirectory && !config.rules.exclusion.excludes (Utf8.replaceBroken e.1)

/-! ### One entry -/

theorem entry?_visitFile_own (hname : Name.Valid name) :
    Visit.entry? (w.visitFile config.rules root (root.join name) name) =
      if config.rules.inclusion.selects (Utf8.replaceBroken name) then w.ownFile? root name
      else none := by
  have hrelative : (root.joinAll [name]).relativeTo? root = some (.ofNames [name]) :=
    Path.relativeTo?_joinAll root (by simpa using hname)
  rw [Path.joinAll_cons, Path.joinAll_nil] at hrelative
  by_cases hselects : config.rules.inclusion.selects (Utf8.replaceBroken name) = true
  · cases hread : w.read (root.join name) with
    | ok bytes => simp [visitFile, ownFile?, hselects, hread, Visit.entry?, hrelative, Entry.found]
    | error cause => simp [visitFile, ownFile?, hselects, hread, Visit.entry?]
  · simp [visitFile, hselects, Visit.entry?]

theorem failure?_visitFile_own :
    (w.visitFile config.rules root (root.join name) name).failure? =
      if config.rules.inclusion.selects (Utf8.replaceBroken name) then w.ownFailure? root name
      else none := by
  by_cases hselects : config.rules.inclusion.selects (Utf8.replaceBroken name) = true
  · cases hread : w.read (root.join name) <;>
      simp [visitFile, ownFailure?, hselects, hread, Visit.failure?]
  · simp [visitFile, hselects, Visit.failure?]

/-- What a walk of a subdirectory on its own gives is what the walk from above gives there. -/
theorem alike_subdirectory (w : World) (config : Config) (root : Path) {sub : Listing}
    (hvalid : (Node.directory sub).Valid)
    (hname : Name.Valid name) :
    w.Alike config Visit.entry? (fun v => v.entry?.map (Entry.under name)) root (root.join name)
        (root.join name) (root.join name) sub ∧
      w.Alike config Visit.failure? Visit.failure? root (root.join name) (root.join name)
        (root.join name) sub := by
  refine ⟨⟨fun _ _ _ _ => .rfl, fun _ _ _ _ _ _ => rfl, ?_⟩,
    ⟨fun _ _ _ _ => .rfl, fun _ _ _ _ _ _ => rfl, ?_⟩⟩
  · intro dirs last node hat _ _ _
    have hchain := hvalid.names hat
    have habove : ∀ n ∈ name :: (dirs ++ [last]), Name.Valid n :=
      List.forall_mem_cons.2 ⟨hname, hchain⟩
    ext entry
    simp only [Option.map_eq_some_iff]
    constructor
    · intro hentry
      obtain ⟨hselects, bytes, hread, rfl⟩ := entry?_visitFile.1 hentry
      refine ⟨.found (root.join name) dirs last bytes,
        entry?_visitFile.2 ⟨hselects, bytes, hread, ?_⟩, ?_⟩
      · rw [Path.relativeTo?_joinAll _ hchain]
        rfl
      · rw [Entry.under_found bytes habove, ← Path.joinAll_cons, Path.relativeTo?_joinAll _ habove]
        rfl
    · rintro ⟨entry, hentry, rfl⟩
      obtain ⟨hselects, bytes, hread, rfl⟩ := entry?_visitFile.1 hentry
      refine entry?_visitFile.2 ⟨hselects, bytes, hread, ?_⟩
      rw [Path.relativeTo?_joinAll _ hchain, ← Path.joinAll_cons, Path.relativeTo?_joinAll _ habove]
      exact Entry.under_found bytes habove
  · intro dirs last node _ _ _ _
    exact Option.ext fun failure => failure?_visitFile.trans failure?_visitFile.symm

/-! ### A whole directory -/

/-- What is read off the walk of a directory: what its own selected entries give, and then what its
subdirectories give that are not left out. -/
theorem filterMap_descend {β : Type} {f : Visit → Option β} (hf : Visit.Silent f)
    (own : Name → Option β) (below : Name × Node → List β)
    (hown : ∀ e ∈ entries, f (w.visitFile config.rules root (root.join e.1) e.1) =
      if config.rules.inclusion.selects (Utf8.replaceBroken e.1) then own e.1 else none)
    (hbelow : ∀ e ∈ entries, e.2.isDirectory = true →
      config.rules.exclusion.excludes (Utf8.replaceBroken e.1) = false →
      (w.branch config root (root.join e.1) e.1 e.2).visits.filterMap f = below e) :
    (w.descend config root root entries).filterMap f =
      (w.ownSelected config root entries).filterMap (fun e => own e.1) ++
        (subdirectories config entries).flatMap below := by
  rw [descend_eq, List.filterMap_append, List.filterMap_map, List.filterMap_flatMap]
  congr 1
  · rw [ownSelected, List.filterMap_filter, List.filterMap_filter]
    refine List.filterMap_congr ?_
    intro e he
    rw [Function.comp_apply, hown e (Listing.mem_inOrder.1 he)]
    cases w.ranksAsDirectory (root.join e.1) e.2 <;>
      cases config.rules.inclusion.selects (Utf8.replaceBroken e.1) <;> rfl
  · have hkept : ((entries.inOrder config.order).filter fun e => e.2.isDirectory).flatMap
          (fun e => (w.branch config root (root.join e.1) e.1 e.2).visits.filterMap f) =
        (subdirectories config entries).flatMap
          fun e => (w.branch config root (root.join e.1) e.1 e.2).visits.filterMap f := by
      refine flatMap_filter_of_nil ?_ ?_
      · intro e _ he
        exact (Bool.and_eq_true_iff.1 he).1
      · intro e _ hdir hexcluded
        rw [hdir, Bool.true_and, Bool.not_eq_false'] at hexcluded
        rw [Node.eq_directory hdir, visits_branch_directory, if_pos hexcluded]
        simp [hf.pruned]
    rw [hkept]
    refine List.flatMap_congr ?_
    intro e he
    obtain ⟨he, hopen⟩ := List.mem_filter.1 he
    rw [Bool.and_eq_true, Bool.not_eq_true'] at hopen
    exact hbelow e (Listing.mem_inOrder.1 he) hopen.1 hopen.2

/-- A subdirectory gives what it gives when it is collected on its own, seen from one directory
further up. -/
theorem filterMap_visits_branch (hdisk : w.disk.Valid)
    (hroot : w.follow root = .ok (place, .directory entries)) {e : Name × Node} (he : e ∈ entries)
    (hdir : e.2.isDirectory = true)
    (hkept : config.rules.exclusion.excludes (Utf8.replaceBroken e.1) = false) :
    (w.branch config root (root.join e.1) e.1 e.2).visits.filterMap Visit.entry? =
        (w.collect config (root.join e.1)).files.map (Entry.under e.1) ∧
      (w.branch config root (root.join e.1) e.1 e.2).visits.filterMap Visit.failure? =
        (w.collect config (root.join e.1)).failures := by
  obtain ⟨-, -, -, htop, -⟩ := follow_eq_ok_iff.1 hroot
  have hvalid := hdisk.node? htop
  have hfind := Listing.find?_of_mem hvalid.listing.nodup he
  have hname := hvalid.listing.name_of_find? hfind
  have hat : (Node.directory entries).at? [e.1] = some e.2 := (Node.at?_single _ e.1).trans hfind
  have hsub := hvalid.at? hat
  rw [Node.eq_directory hdir] at hat hsub ⊢
  rw [visits_branch_directory, if_neg (by simp [hkept])]
  cases hrefusal : (root.join e.1).refusal? with
  | some cause =>
    have hnone : w.isDirectory (root.join e.1) = false := by
      simp [isDirectory, follow, hrefusal]
    rw [collect_of_not_directory hnone]
    exact ⟨rfl, rfl⟩
  | none =>
    have hfollow := follow_below hdisk hroot hat (by simp) hrefusal
    rw [Path.joinAll_cons, Path.joinAll_nil] at hfollow
    rw [collect_of_follow hfollow, Collection.ofVisits, List.map_filterMap]
    have halike := w.alike_subdirectory config root hsub hname
    exact ⟨filterMap_descend_congr (.directory e.2.entries) silent_entries (silent_entries.map _)
        hsub halike.1,
      filterMap_descend_congr (.directory e.2.entries) silent_failures silent_failures hsub
        halike.2⟩

/-- The collection of a directory is what its own selected files give, in order, and then,
subdirectory by subdirectory in the same order, what the collection of each gives, its files seen
from one directory further up and all else unchanged. -/
theorem collect_compose (w : World) (config : Config) (root : Path) (place : Place)
    (entries : Listing) (hdisk : w.disk.Valid)
    (hroot : w.follow root = .ok (place, .directory entries)) :
    (w.collect config root).files =
        (w.ownSelected config root entries).filterMap (fun e => w.ownFile? root e.1) ++
          (subdirectories config entries).flatMap
            (fun e => (w.collect config (root.join e.1)).files.map (Entry.under e.1)) ∧
      (w.collect config root).failures =
        (w.ownSelected config root entries).filterMap (fun e => w.ownFailure? root e.1) ++
          (subdirectories config entries).flatMap
            (fun e => (w.collect config (root.join e.1)).failures) := by
  obtain ⟨-, -, -, htop, -⟩ := follow_eq_ok_iff.1 hroot
  have hlisting := (hdisk.node? htop).listing
  rw [collect_of_follow hroot]
  constructor
  · refine filterMap_descend silent_entries (w.ownFile? root) _ ?_ ?_
    · intro e he
      exact entry?_visitFile_own (hlisting.names e.1 (List.mem_map_of_mem he))
    · intro e he hdir hkept
      exact (filterMap_visits_branch hdisk hroot he hdir hkept).1
  · refine filterMap_descend silent_failures (w.ownFailure? root) _ ?_ ?_
    · intro e _
      exact failure?_visitFile_own
    · intro e he hdir hkept
      exact (filterMap_visits_branch hdisk hroot he hdir hkept).2

/-- The project on the small disk is its own files and what its subdirectories hold. -/
theorem collect_compose_sample :
    Disk.sample.Valid ∧
      sample.follow ⟨[0x2F, 0x70]⟩ = .ok (.named [[0x70]], .directory Disk.project) ∧
      (sample.collect .builtin ⟨[0x2F, 0x70]⟩).failures =
        (sample.ownSelected .builtin ⟨[0x2F, 0x70]⟩ Disk.project).filterMap
            (fun e => sample.ownFailure? ⟨[0x2F, 0x70]⟩ e.1) ++
          (subdirectories .builtin Disk.project).flatMap
            fun e => (sample.collect .builtin (Path.join ⟨[0x2F, 0x70]⟩ e.1)).failures := by
  have hroot : sample.follow ⟨[0x2F, 0x70]⟩ = .ok (.named [[0x70]], .directory Disk.project) := rfl
  exact ⟨Disk.valid_sample, hroot,
    (collect_compose sample .builtin _ _ _ Disk.valid_sample hroot).2⟩

end World

end SourceBundle
