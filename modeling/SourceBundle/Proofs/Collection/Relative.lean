import SourceBundle.Proofs.Collection.Selection

/-!
Paths as seen from the root. However the root is spelled, the path of a file below it is that spelling
grown by the names on the way, so what the two have in common is the whole of the root and what is left
are the names. Nothing of the spelling, no dot, no step upwards and no slash, comes into the relative
path; joined to the root it gives the path of the file back, and no two files have the same.
-/

namespace SourceBundle

/-- The names of a relative path stand between single slashes. -/
theorem Path.bytes_ofNames_eq_intercalate {names : List Name} (h : ∀ name ∈ names, Name.Valid name) :
    (ofNames names).bytes = [Bytes.slash].intercalate names := by
  have hslash : ∀ (name : Name) (rest : List Name),
      [Bytes.slash].intercalate (name :: rest) = name ++ rest.flatMap (Bytes.slash :: ·) := by
    intro name rest
    induction rest generalizing name with
    | nil => simp
    | cons next rest ih =>
      rw [List.intercalate_cons_cons, ih]
      simp
  cases names with
  | nil => rfl
  | cons name rest =>
    rw [List.forall_mem_cons] at h
    rw [bytes_ofNames h.1 h.2, hslash]

theorem Path.not_slash_prefix {names : List Name} (h : ∀ name ∈ names, Name.Valid name) :
    ¬ [Bytes.slash] <+: (ofNames names).bytes := by
  rintro ⟨after, hafter⟩
  have habsolute := isAbsolute_ofNames h
  rw [isAbsolute, ← hafter] at habsolute
  cases habsolute

/-- A relative path made of names does not begin with a single dot. -/
theorem Path.not_dotSlash_prefix {names : List Name} (h : ∀ name ∈ names, Name.Valid name) :
    ¬ Bytes.dot ++ [Bytes.slash] <+: (ofNames names).bytes := by
  cases names with
  | nil => decide
  | cons name rest =>
    rw [List.forall_mem_cons] at h
    rw [bytes_ofNames h.1 h.2]
    rintro ⟨after, hafter⟩
    have hdot := h.1.ne_dot
    have hslash := h.1.slash_notMem
    have hne := h.1.ne_nil
    match name, hne with
    | [b], _ => simp_all [Bytes.dot]
    | b :: b' :: more, _ => simp_all [Bytes.dot]

/-- How a collected file is seen from the root `root` of the collection, below which the names `chain`
lead to it through the tree `top`. -/
structure Entry.SeenFrom (e : Entry) (root : Path) (top : Node) (chain : List Name) : Prop where
  stands : ∃ node, top.at? chain = some node ∧ node.isDirectory = false
  path : e.path = root.joinAll chain
  /-- The relative path is the names with a slash between every two. -/
  relative : e.relativePath.bytes = [Bytes.slash].intercalate chain
  /-- It comes from comparing the two paths; the path itself never has to stand in for it. -/
  compared : e.path.relativeTo? root = some e.relativePath
  /-- It is made of names only: no root, no dot, no step upwards. -/
  components : e.relativePath.components = chain.map .name
  not_absolute : ¬ [Bytes.slash] <+: e.relativePath.bytes
  not_dotted : ¬ Bytes.dot ++ [Bytes.slash] <+: e.relativePath.bytes
  /-- Joined to the root, it gives the path of the file, byte for byte. -/
  rejoined : root.join e.relativePath.bytes = e.path

namespace World

variable {w : World} {config : Config} {root path : Path} {entries found : Listing}
  {dirs : List Name} {name : Name} {place : Place}

/-- The names of a selected file lead to it through the tree. -/
theorem Selects.at? (h : w.Selects config.rules root entries dirs name)
    (hvalid : (Node.directory entries).Valid) :
    ∃ node, (Node.directory entries).at? (dirs ++ [name]) = some node ∧ node.isDirectory = false := by
  obtain ⟨found, node, henters, hmem, hrank, -⟩ := h
  exact ⟨node, henters.at?_concat hvalid hmem, (ranksAsDirectory_eq_false_iff.1 hrank).1⟩

/-- A selected file is seen as the chain of its names. -/
theorem Selects.seenFrom (h : w.Selects config.rules root entries dirs name)
    (hvalid : (Node.directory entries).Valid) (bytes : Bytes) :
    (Entry.found root dirs name bytes).SeenFrom root (.directory entries) (dirs ++ [name]) := by
  have hchain := h.chain_valid hvalid
  exact
    { stands := h.at? hvalid
      path := rfl
      relative := Path.bytes_ofNames_eq_intercalate hchain
      compared := Path.relativeTo?_joinAll root hchain
      components := Path.components_ofNames hchain
      not_absolute := Path.not_slash_prefix hchain
      not_dotted := Path.not_dotSlash_prefix hchain
      rejoined := Path.join_ofNames root hchain (by simp) }

/-- From every root that leads to a directory, however it is spelled, each collected file is seen as the
chain of names that leads to it, and no two of them are seen as the same. -/
theorem collect_relative (w : World) (config : Config) (root : Path) (place : Place)
    (entries : Listing) (hdisk : w.disk.Valid)
    (hroot : w.follow root = .ok (place, .directory entries)) :
    (∀ e ∈ (w.collect config root).files,
        ∃ chain, chain ≠ [] ∧ e.SeenFrom root (.directory entries) chain) ∧
      ((w.collect config root).files.map (·.relativePath.components)).Nodup := by
  obtain ⟨-, -, -, htop, -⟩ := follow_eq_ok_iff.1 hroot
  have hseen : ∀ e ∈ (w.collect config root).files,
      ∃ chain, chain ≠ [] ∧ e.SeenFrom root (.directory entries) chain := by
    intro e he
    obtain ⟨dirs, name, bytes, hselects, -, rfl⟩ := (mem_files_iff hdisk hroot).1 he
    exact ⟨dirs ++ [name], by simp, hselects.seenFrom (hdisk.node? htop) bytes⟩
  refine ⟨hseen, ?_⟩
  have hpaths : ((w.collect config root).files.map (·.path)).Nodup := nodup_paths hdisk hroot
  rw [List.Nodup, List.pairwise_map] at hpaths ⊢
  refine hpaths.imp_of_mem ?_
  intro e e' he he' hne hcomponents
  obtain ⟨chain, -, hchain⟩ := hseen e he
  obtain ⟨chain', -, hchain'⟩ := hseen e' he'
  rw [hchain.components, hchain'.components] at hcomponents
  have hsame : chain = chain' :=
    List.map_injective_iff.2 (fun _ _ => Path.Component.name.inj) hcomponents
  exact hne (by rw [hchain.path, hchain'.path, hsame])

/-- The small project under a path with dots, steps upwards and doubled slashes: its files are seen as if
nothing of that were there. -/
theorem collect_relative_sample :
    Disk.sample.Valid ∧
      sample.follow (.ofString "../p/./up//..//p/") = .ok (.named [[0x70]], .directory Disk.project) ∧
      (sample.collect .builtin (.ofString "../p/./up//..//p/")).files.map (·.relativePath) =
        [.ofString "b.c", .ofString "a/x.h"] ∧
      ∀ e ∈ (sample.collect .builtin (.ofString "../p/./up//..//p/")).files,
        ∃ chain, chain ≠ [] ∧
          e.SeenFrom (.ofString "../p/./up//..//p/") (.directory Disk.project) chain := by
  have hroot : sample.follow (.ofString "../p/./up//..//p/") =
      .ok (.named [[0x70]], .directory Disk.project) := rfl
  exact ⟨Disk.valid_sample, hroot, by decide,
    (collect_relative sample .builtin _ _ _ Disk.valid_sample hroot).1⟩

end World

end SourceBundle
