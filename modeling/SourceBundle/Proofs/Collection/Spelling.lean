import Mathlib.Data.List.Forall2
import SourceBundle.Proofs.Collection.Rerooting
import SourceBundle.Proofs.Collection.Sorted

/-!
One directory under two names. Two paths may lead to the same directory, and below it the same names
lead to the same nodes, as long as the limits of the system play no part: the one path may be longer
than the other, and it may have used up links that the other has left. Then both collections say the
same, entry by entry, of every file but the path by which it was reached, and they fail on the same
files for the same reasons.
-/

namespace SourceBundle

/-- What a document says of a file. -/
def Entry.told (e : Entry) : Path × String × String := (e.relativePath, e.lang, e.content)

/-- What a failure says of a file below `root`: by which names it is reached, and why it could not be
read. -/
def Failure.told (root : Path) (f : Failure) : List Name × Option IoError :=
  (f.stepsBelow root, f.cause?)

/-- Whether two failures are about the same file below two paths of one directory, and have the same
cause. -/
def Failure.SameBelow (p q : Path) (f g : Failure) : Prop :=
  ∃ names cause, (∀ name ∈ names, Name.Valid name) ∧ f = .read (p.joinAll names) cause ∧
    g = .read (q.joinAll names) cause

/-- Collections of which a document says the same have the same document. -/
theorem Collection.render_eq_of_told {c c' : Collection}
    (h : c.files.map Entry.told = c'.files.map Entry.told) : c.render = c'.render := by
  have hblock : Entry.block = (fun t : Path × String × String =>
      "Here is " ++ t.1.shown ++ ":\n```" ++ t.2.1 ++ "\n" ++ t.2.2 ++ "\n```\n") ∘ Entry.told := rfl
  simp only [render, document, hblock, ← List.map_map, h]

/-- And they are of the same size. -/
theorem Collection.totalBytes_eq_of_told {c c' : Collection}
    (h : c.files.map Entry.told = c'.files.map Entry.told) : c.totalBytes = c'.totalBytes := by
  have htotal : ∀ c : Collection, c.totalBytes =
      (c.files.map Entry.told).foldr (fun t total => t.2.2.utf8ByteSize + total) 0 := by
    intro c
    rw [List.foldr_map]
    rfl
  rw [htotal, htotal, h]

namespace World

variable {w : World} {config : Config} {p q r : Path} {place : Place} {entries : Listing}
  {dirs : List Name} {name : Name} {node : Node}

/-- A path that goes round in circles: however many links are followed, the next one follows. -/
def Endless (w : World) (p : Path) : Prop :=
  ∀ links, w.disk.chase true links (Disk.origin p w.cwd) p.steps p.endsInSlash =
    .blocked .tooManyLinks

/-- No limit of the system plays a part in a walk from `root`: no path that the walk comes to is too
long, and a path that leads over too many links would not end with more of them either. -/
structure Unlimited (w : World) (rules : Rules) (root : Path) (entries : Listing) : Prop where
  root_short : root.bytes.length < maxPath
  short : ∀ dirs name node, (Node.directory entries).at? (dirs ++ [name]) = some node →
    (∀ dir ∈ dirs, rules.exclusion.excludes (Utf8.replaceBroken dir) = false) →
    (root.joinAll (dirs ++ [name])).bytes.length < maxPath
  linked : ∀ dirs name node, (Node.directory entries).at? (dirs ++ [name]) = some node →
    (∀ dir ∈ dirs, rules.exclusion.excludes (Utf8.replaceBroken dir) = false) →
    w.locate true (root.joinAll (dirs ++ [name])) = .blocked .tooManyLinks →
    w.Endless (root.joinAll (dirs ++ [name]))

/-- Below a directory without links, only the length of its names can be a limit. -/
theorem unlimited_of_no_links {rules : Rules} (hdisk : w.disk.Valid)
    (hroot : w.follow r = .ok (place, .directory entries))
    (hreach : r.bytes.length + (Node.directory entries).reach < maxPath)
    (hlinks : ∀ names target, (Node.directory entries).at? names ≠ some (.link target)) :
    w.Unlimited rules r entries := by
  refine ⟨by omega, ?_, ?_⟩
  · intro dirs name node hat _
    have hlength := r.length_joinAll_le hat
    omega
  · intro dirs name node hat _ hblocked
    have hne : dirs ++ [name] ≠ [] := by simp
    have hlink : ∀ target, node ≠ .link target := by
      rintro target rfl
      exact hlinks _ target hat
    rw [locate_below hdisk hroot hne hat hlink true] at hblocked
    cases hblocked

/-! ### One entry -/

/-- Below a path that leads to a directory an entry is looked up with the links that are left; when it is
stopped there only because it goes round in circles, more links make no difference. -/
theorem locate_left (hp : w.follow p = .ok (place, .directory entries)) :
    ∃ left, left ≤ maxLinks ∧
      (∀ links, w.locateWithin links p = .blocked .tooManyLinks ↔ links + left < maxLinks) ∧
      ∀ names, names ≠ [] → (∀ name ∈ names, Name.Valid name) →
        w.locate true (p.joinAll names) = w.disk.chase true left place names false ∧
          ((w.locate true (p.joinAll names) = .blocked .tooManyLinks → w.Endless (p.joinAll names)) →
            ∀ more, left ≤ more →
              w.disk.chase true more place names false =
                w.disk.chase true left place names false) := by
  obtain ⟨left, hle, hlimit, hleft⟩ := chase_joinAll hp
  refine ⟨left, hle, hlimit, ?_⟩
  intro names hne hnames
  have hfrom : w.locate true (p.joinAll names) = w.disk.chase true left place names false :=
    hleft 0 true names hne hnames
  refine ⟨hfrom, ?_⟩
  intro hendless more hmore
  refine Disk.chase_eq_of_le hmore ?_
  intro hblocked extra
  rw [← hleft extra true names hne hnames]
  exact hendless (hfrom.trans hblocked) _

/-- Below two paths that lead to one directory an entry is found at the same place. -/
theorem locate_spelling (hdisk : w.disk.Valid) (hp : w.follow p = .ok (place, .directory entries))
    (hq : w.follow q = .ok (place, .directory entries))
    (hat : (Node.directory entries).at? (dirs ++ [name]) = some node)
    (hlinked : w.locate true (p.joinAll (dirs ++ [name])) = .blocked .tooManyLinks →
      w.Endless (p.joinAll (dirs ++ [name])))
    (hlinked' : w.locate true (q.joinAll (dirs ++ [name])) = .blocked .tooManyLinks →
      w.Endless (q.joinAll (dirs ++ [name]))) :
    w.locate true (p.joinAll (dirs ++ [name])) = w.locate true (q.joinAll (dirs ++ [name])) := by
  obtain ⟨-, -, -, htop, -⟩ := follow_eq_ok_iff.1 hp
  have hnames := (hdisk.node? htop).names hat
  have hne : dirs ++ [name] ≠ [] := by simp
  obtain ⟨left, -, -, hleft⟩ := locate_left hp
  obtain ⟨left', -, -, hleft'⟩ := locate_left hq
  obtain ⟨hfrom, hmore⟩ := hleft _ hne hnames
  obtain ⟨hfrom', hmore'⟩ := hleft' _ hne hnames
  rw [hfrom, hfrom']
  rcases Nat.le_total left left' with hle | hle
  · exact (hmore hlinked _ hle).symm
  · exact hmore' hlinked' _ hle

/-- Below two paths that lead to one directory a name leads to the same node. -/
theorem follow_spelling (hdisk : w.disk.Valid) {rules : Rules}
    (hp : w.follow p = .ok (place, .directory entries))
    (hq : w.follow q = .ok (place, .directory entries))
    (hunlimited : w.Unlimited rules p entries) (hunlimited' : w.Unlimited rules q entries)
    (hat : (Node.directory entries).at? (dirs ++ [name]) = some node)
    (hkept : ∀ dir ∈ dirs, rules.exclusion.excludes (Utf8.replaceBroken dir) = false) :
    w.follow (p.joinAll (dirs ++ [name])) = w.follow (q.joinAll (dirs ++ [name])) := by
  obtain ⟨hrefusal, -, -, htop, -⟩ := follow_eq_ok_iff.1 hp
  obtain ⟨hrefusal', -⟩ := follow_eq_ok_iff.1 hq
  have hnames := (hdisk.node? htop).names hat
  have hshort := hunlimited.short dirs name node hat hkept
  have hshort' := hunlimited'.short dirs name node hat hkept
  have htaken : (p.joinAll (dirs ++ [name])).refusal? = none := by
    rw [refusal?_joinAll hrefusal hnames, if_neg (Nat.not_le.2 hshort)]
  have htaken' : (q.joinAll (dirs ++ [name])).refusal? = none := by
    rw [refusal?_joinAll hrefusal' hnames, if_neg (Nat.not_le.2 hshort')]
  unfold follow
  rw [htaken, htaken', locate_spelling hdisk hp hq hat (hunlimited.linked dirs name node hat hkept)
    (hunlimited'.linked dirs name node hat hkept)]

/-! ### The whole collection -/

/-- Walks from two paths that lead to one directory are alike for what says the same of a file that the
same names lead to, read with the same result. -/
theorem alike_spelling {β : Type} {f g : Visit → Option β} (hdisk : w.disk.Valid)
    (hp : w.follow p = .ok (place, .directory entries))
    (hq : w.follow q = .ok (place, .directory entries))
    (hunlimited : w.Unlimited config.rules p entries)
    (hunlimited' : w.Unlimited config.rules q entries)
    (hlook : ∀ dirs name, (∀ n ∈ dirs ++ [name], Name.Valid n) →
      w.read (p.joinAll (dirs ++ [name])) = w.read (q.joinAll (dirs ++ [name])) →
      f (w.visitFile config.rules p (p.joinAll (dirs ++ [name])) name) =
        g (w.visitFile config.rules q (q.joinAll (dirs ++ [name])) name)) :
    w.Alike config f g p p q q entries := by
  obtain ⟨hrefusal, -, -, htop, -⟩ := follow_eq_ok_iff.1 hp
  obtain ⟨hrefusal', -⟩ := follow_eq_ok_iff.1 hq
  have hvalid := hdisk.node? htop
  refine ⟨?_, ?_, ?_⟩
  · intro dirs sub hat hkept
    rcases List.eq_nil_or_concat' dirs with rfl | ⟨front, last, rfl⟩
    · exact iff_of_true hrefusal hrefusal'
    · have hfront : ∀ dir ∈ front,
          config.rules.exclusion.excludes (Utf8.replaceBroken dir) = false := by
        intro dir hdir
        exact hkept dir (List.mem_append_left _ hdir)
      have hnames := hvalid.names hat
      have hshort := hunlimited.short front last _ hat hfront
      have hshort' := hunlimited'.short front last _ hat hfront
      rw [refusal?_joinAll hrefusal hnames, refusal?_joinAll hrefusal' hnames,
        if_neg (Nat.not_le.2 hshort), if_neg (Nat.not_le.2 hshort')]
  · intro dirs name node hat _ hkept
    cases node with
    | link target =>
      have hfollow := follow_spelling hdisk hp hq hunlimited hunlimited' hat hkept
      simp only [ranksAsDirectory, isDirectory, hfollow]
    | _ => rfl
  · intro dirs name node hat _ hkept _
    refine hlook dirs name (hvalid.names hat) ?_
    unfold read
    rw [follow_spelling hdisk hp hq hunlimited hunlimited' hat hkept]

/-- Two paths of one directory give collections of which a document says the same. -/
theorem told_spelling (hdisk : w.disk.Valid) (hp : w.follow p = .ok (place, .directory entries))
    (hq : w.follow q = .ok (place, .directory entries))
    (hunlimited : w.Unlimited config.rules p entries)
    (hunlimited' : w.Unlimited config.rules q entries) :
    (w.collect config p).files.map Entry.told = (w.collect config q).files.map Entry.told := by
  obtain ⟨-, -, -, htop, -⟩ := follow_eq_ok_iff.1 hp
  have halike : w.Alike config (fun v => v.entry?.map Entry.told) (fun v => v.entry?.map Entry.told)
      p p q q entries := by
    refine alike_spelling hdisk hp hq hunlimited hunlimited' ?_
    intro dirs name hchain hread
    unfold visitFile
    simp only [hread, Path.relativeTo?_joinAll p hchain, Path.relativeTo?_joinAll q hchain]
    split
    · split <;> rfl
    · rfl
  rw [collect_of_follow hp, collect_of_follow hq]
  simp only [Collection.ofVisits, List.map_filterMap]
  exact filterMap_descend_congr (.directory entries) (silent_entries.map _) (silent_entries.map _)
    (hdisk.node? htop) halike

/-- Two paths of one directory give collections that fail on the same files for the same reasons. -/
theorem told_failures_spelling (hdisk : w.disk.Valid)
    (hp : w.follow p = .ok (place, .directory entries))
    (hq : w.follow q = .ok (place, .directory entries))
    (hunlimited : w.Unlimited config.rules p entries)
    (hunlimited' : w.Unlimited config.rules q entries) :
    (w.collect config p).failures.map (Failure.told p) =
      (w.collect config q).failures.map (Failure.told q) := by
  obtain ⟨-, -, -, htop, -⟩ := follow_eq_ok_iff.1 hp
  have halike : w.Alike config (fun v => v.failure?.map (Failure.told p))
      (fun v => v.failure?.map (Failure.told q)) p p q q entries := by
    refine alike_spelling hdisk hp hq hunlimited hunlimited' ?_
    intro dirs name hchain hread
    unfold visitFile
    simp only [hread]
    split
    · split
      · rfl
      · simp only [Visit.failure?, Option.map_some, Failure.told, stepsBelow_read hchain]
        rfl
    · rfl
  rw [collect_of_follow hp, collect_of_follow hq]
  simp only [Collection.ofVisits, List.map_filterMap]
  exact filterMap_descend_congr (.directory entries) (silent_failures.map _) (silent_failures.map _)
    (hdisk.node? htop) halike

/-- Failures of which the same is told are about the same file. -/
theorem sameBelow_of_told {f g : Failure} (hdisk : w.disk.Valid)
    (hp : w.follow p = .ok (place, .directory entries))
    (hq : w.follow q = .ok (place, .directory entries)) (hf : f ∈ (w.collect config p).failures)
    (hg : g ∈ (w.collect config q).failures) (htold : f.told p = g.told q) : f.SameBelow p q g := by
  obtain ⟨-, -, -, htop, -⟩ := follow_eq_ok_iff.1 hp
  obtain ⟨dirs, name, cause, hselects, -, rfl⟩ := (mem_failures_iff hp).1 hf
  obtain ⟨dirs', name', cause', hselects', -, rfl⟩ := (mem_failures_iff hq).1 hg
  have hchain := hselects.chain_valid (hdisk.node? htop)
  have hchain' := hselects'.chain_valid (hdisk.node? htop)
  rw [Failure.told, Failure.told, stepsBelow_read hchain, stepsBelow_read hchain'] at htold
  obtain ⟨hnames, hcause⟩ := Prod.mk.inj htold
  obtain rfl : cause = cause' := Option.some.inj hcause
  exact ⟨dirs ++ [name], cause, hchain, rfl, by rw [hnames]⟩

/-- However a directory is spelled, as long as no limit of the system plays a part, the same is
collected from it: the same files in the same order as seen from it, with the same tags and contents,
and so the same document of the same size, and failures on the same files for the same reasons. -/
theorem collect_spelling (w : World) (config : Config) (p q : Path) (place : Place)
    (entries : Listing) (hdisk : w.disk.Valid) (hp : w.follow p = .ok (place, .directory entries))
    (hq : w.follow q = .ok (place, .directory entries))
    (hunlimited : w.Unlimited config.rules p entries)
    (hunlimited' : w.Unlimited config.rules q entries) :
    (w.collect config p).files.map Entry.told = (w.collect config q).files.map Entry.told ∧
      (w.collect config p).render = (w.collect config q).render ∧
      (w.collect config p).totalBytes = (w.collect config q).totalBytes ∧
      List.Forall₂ (Failure.SameBelow p q) (w.collect config p).failures
        (w.collect config q).failures := by
  have hfiles := told_spelling hdisk hp hq hunlimited hunlimited'
  have hfailures := told_failures_spelling hdisk hp hq hunlimited hunlimited'
  refine ⟨hfiles, Collection.render_eq_of_told hfiles, Collection.totalBytes_eq_of_told hfiles, ?_⟩
  rw [← List.forall₂_eq_eq_eq, List.forall₂_map_left_iff, List.forall₂_map_right_iff,
    List.forall₂_iff_zip] at hfailures
  obtain ⟨hlength, htold⟩ := hfailures
  refine List.forall₂_iff_zip.2 ⟨hlength, ?_⟩
  intro f g hzip
  obtain ⟨hf, hg⟩ := List.of_mem_zip hzip
  exact sameBelow_of_told hdisk hp hq hf hg (htold hzip)

/-- The directory `a` of the project on the small disk, by its absolute path and by a way over a link,
a dot and doubled slashes. -/
theorem collect_spelling_sample :
    sample.disk.Valid ∧
      sample.follow (.ofString "/p/a") = .ok (.named [[0x70], [0x61]], .directory Disk.headers) ∧
      sample.follow (.ofString "up/.//a/") =
        .ok (.named [[0x70], [0x61]], .directory Disk.headers) ∧
      sample.Unlimited .builtin (.ofString "/p/a") Disk.headers ∧
      sample.Unlimited .builtin (.ofString "up/.//a/") Disk.headers ∧
      (sample.collect .builtin (.ofString "/p/a")).render =
        (sample.collect .builtin (.ofString "up/.//a/")).render := by
  have hdisk : sample.disk.Valid := Disk.valid_sample
  have hp : sample.follow (.ofString "/p/a") =
      .ok (.named [[0x70], [0x61]], .directory Disk.headers) := rfl
  have hq : sample.follow (.ofString "up/.//a/") =
      .ok (.named [[0x70], [0x61]], .directory Disk.headers) := rfl
  have hunlimited : sample.Unlimited .builtin (.ofString "/p/a") Disk.headers :=
    unlimited_of_no_links hdisk hp (by decide) Disk.at?_headers_ne_link
  have hunlimited' : sample.Unlimited .builtin (.ofString "up/.//a/") Disk.headers :=
    unlimited_of_no_links hdisk hq (by decide) Disk.at?_headers_ne_link
  exact ⟨hdisk, hp, hq, hunlimited, hunlimited',
    (collect_spelling sample .builtin _ _ _ _ hdisk hp hq hunlimited hunlimited').2.1⟩

end World

end SourceBundle
