import Mathlib.Data.List.Forall2
import Mathlib.Data.List.Nodup
import SourceBundle.Log
import SourceBundle.Proofs.Collection.Reordered
import SourceBundle.Proofs.Decimal.Numeral
import SourceBundle.Proofs.Disk.Resolving

/-!
The log of a walk. The walk comes to the entries of every directory that it can list. Of an entry that
is neither a directory nor a link to one the log tells how it was looked at; of a real directory it
tells only that it is left out, or that it cannot be listed, and nothing of what lies below. No two
records are of one entry, for no two visits are to one path. Since files and failures are read off the
same visits, the records that tell of them repeat them in order.
-/

namespace SourceBundle

/-! ### What the records say -/

/-- The part of the program that the records of a walk come from. -/
def walkSource : String := "codeprompt_core::gather"

/-- How it is logged that a file was read. -/
def Entry.note (entry : Entry) : Record :=
  ⟨.debug, walkSource,
    "Read " ++ entry.relativePath.shown ++ " (" ++ toString entry.content.utf8ByteSize ++ " bytes)"⟩

/-- How it is logged that a file could not be read. -/
def Failure.note (failure : Failure) : Record := ⟨.debug, walkSource, failure.message⟩

namespace Record

/-- Whether a record tells of a file that was read. -/
def tellsRead (r : Record) : Bool :=
  r.level = .debug && "Read ".toList.isPrefixOf r.message.toList

/-- Whether a record tells of a file that could not be read. -/
def tellsFailure (r : Record) : Bool :=
  r.level = .debug && "Could not read ".toList.isPrefixOf r.message.toList

/-- The number of bytes that a record ends with. -/
def bytesRead (r : Record) : Nat :=
  Decimal.number
    ((r.message.toList.reverse.drop " bytes)".length).takeWhile Char.isDigit).reverse

end Record

/-- The record of a file that was read ends with the size of its text. -/
theorem Entry.bytesRead_note (entry : Entry) :
    entry.note.bytesRead = entry.content.utf8ByteSize := by
  obtain ⟨before, hbefore⟩ : ∃ before, entry.note.message =
      before ++ " (" ++ toString entry.content.utf8ByteSize ++ " bytes)" := ⟨_, rfl⟩
  have hdigits : Decimal.Digits (Nat.toDigits 10 entry.content.utf8ByteSize).reverse := by
    have h := Decimal.digits_toDigits entry.content.utf8ByteSize
    exact ⟨by simp [h.ne_nil], by simpa using h.all⟩
  have hbracket : ∀ c, ((before ++ " (").toList.reverse).head? = some c → c.isDigit = false := by
    intro c hc
    have hopen : ((before ++ " (").toList.reverse).head? = some '(' := by
      simp [String.toList_append]
    rw [← Option.some.inj (hopen.symm.trans hc)]
    rfl
  have hreverse : entry.note.message.toList.reverse.drop " bytes)".length =
      (Nat.toDigits 10 entry.content.utf8ByteSize).reverse ++ (before ++ " (").toList.reverse := by
    rw [hbefore, String.toList_append, String.toList_append, Decimal.toList_toString,
      List.reverse_append, List.reverse_append]
    rfl
  rw [Record.bytesRead, hreverse, (Decimal.takeWhile_digits hdigits _ hbracket).1,
    List.reverse_reverse, Decimal.number_toDigits]

theorem Failure.message_read (path : Path) (cause : IoError) :
    (Failure.read path cause).message =
      "Could not read " ++ path.shown ++ ": " ++ cause.message := rfl

/-- The sizes in the records of files add up to that of all their texts. -/
theorem sum_bytesRead (files : List Entry) :
    ((files.map Entry.note).map Record.bytesRead).sum = totalSize (files.map (·.content)) := by
  induction files with
  | nil => rfl
  | cons file files ih =>
    rw [List.map_cons, List.map_cons, List.sum_cons, ih, Entry.bytesRead_note, List.map_cons,
      totalSize_cons]

/-- The records with which a walk tells of files that were read are those of the visits that collected
one. -/
theorem tellsRead_record (v : Visit) : v.record.tellsRead = v.entry?.isSome := by
  cases v with
  | collected entry =>
    simp [Visit.record, Record.tellsRead, Visit.entry?, String.toList_append, List.isPrefixOf]
  | unreadable path cause =>
    simp [Visit.record, Record.tellsRead, Visit.entry?, Failure.message_read, String.toList_append,
      List.isPrefixOf]
  | _ => rfl

/-- The records with which it tells of files that could not be read are those of the visits that
failed. -/
theorem tellsFailure_record (v : Visit) : v.record.tellsFailure = v.failure?.isSome := by
  cases v with
  | collected entry =>
    simp [Visit.record, Record.tellsFailure, Visit.failure?, String.toList_append, List.isPrefixOf]
  | unreadable path cause =>
    simp [Visit.record, Record.tellsFailure, Visit.failure?, Failure.message_read,
      String.toList_append, List.isPrefixOf]
  | _ => rfl

/-- Records that tell of one kind of result repeat the results of that kind. -/
theorem filter_record {α : Type} {tells : Record → Bool} {result : Visit → Option α}
    {note : α → Record}
    (htells : ∀ v, tells v.record = (result v).isSome)
    (hnote : ∀ v a, result v = some a → v.record = note a) (visits : List Visit) :
    (visits.map Visit.record).filter tells = (visits.filterMap result).map note := by
  induction visits with
  | nil => rfl
  | cons v visits ih =>
    rw [List.map_cons, List.filter_cons, htells, ih]
    cases hresult : result v with
    | none => simp [hresult]
    | some a => simp [hresult, hnote v a hresult]

theorem filter_tellsRead (visits : List Visit) :
    (visits.map Visit.record).filter Record.tellsRead =
      (Collection.ofVisits visits).files.map Entry.note := by
  refine filter_record tellsRead_record ?_ visits
  intro v entry hentry
  cases v <;> cases hentry
  rfl

theorem filter_tellsFailure (visits : List Visit) :
    (visits.map Visit.record).filter Record.tellsFailure =
      (Collection.ofVisits visits).failures.map Failure.note := by
  refine filter_record tellsFailure_record ?_ visits
  intro v failure hfailure
  cases v <;> cases hfailure
  rfl

/-! ### No path twice -/

namespace World

variable {w : World} {config : Config} {root path : Path} {entries : Listing} {v : Visit}

/-- Visits that an entry gives are to its own path or to one that goes on from there. -/
theorem path_branch {e : Name × Node} (he : e ∈ entries) (hvalid : (Node.directory entries).Valid)
    (h : v ∈ (w.branch config root (path.join e.1) e.1 e.2).visits) :
    ∃ names, (∀ name ∈ e.1 :: names, Name.Valid name) ∧ v.path = path.joinAll (e.1 :: names) := by
  have hname : Name.Valid e.1 := hvalid.listing.names _ (List.mem_map_of_mem he)
  rcases mem_visits_branch_iff.1 h with hown | ⟨-, -, -, hbelow⟩
  · exact ⟨[], by simpa using hname, path_ownVisits hown⟩
  · have hsub := (Node.valid_directory_iff.1 hvalid).2 e he
    obtain ⟨names, -, hnames, hpath⟩ := path_descend hsub hbelow
    exact ⟨names, List.forall_mem_cons.2 ⟨hname, hnames⟩, hpath⟩

/-- No two visits of a walk are to one path. -/
theorem nodup_path_descend (node : Node) (hvalid : node.Valid) :
    ((w.descend config root path node.entries).map Visit.path).Nodup := by
  induction node using Node.induct generalizing path with
  | leaf node hleaf =>
    rw [Node.entries_of_not_directory hleaf, descend_nil]
    exact .nil
  | directory entries ih =>
    rw [Node.entries, (descend_perm.map Visit.path).nodup_iff, List.map_flatMap, List.nodup_flatMap]
    constructor
    · -- the visits of one entry
      intro e he
      cases hdir : e.2.isDirectory with
      | false =>
        cases hrank : w.ranksAsDirectory (path.join e.1) e.2 with
        | true => simp [visits_branch_of_link hrank hdir]
        | false => simp [visits_branch_of_file hrank]
      | true =>
        have hbelow := @ih e he (path.join e.1) ((Node.valid_directory_iff.1 hvalid).2 e he)
        rw [Node.eq_directory hdir, visits_branch_directory]
        split
        · exact List.nodup_singleton _
        · split
          · exact List.nodup_singleton _
          · exact hbelow
    · -- the visits of two entries, which have different names
      have hnames := hvalid.listing.nodup
      rw [List.Nodup, List.pairwise_map] at hnames
      refine hnames.imp_of_mem ?_
      intro e e' he he' hne p hp hp'
      obtain ⟨v, hv, rfl⟩ := List.mem_map.1 hp
      obtain ⟨v', hv', hsame⟩ := List.mem_map.1 hp'
      obtain ⟨names, hvalids, hpath⟩ := path_branch he hvalid hv
      obtain ⟨names', hvalids', hpath'⟩ := path_branch he' hvalid hv'
      rw [hpath, hpath'] at hsame
      exact hne (List.cons.inj (Path.joinAll_injective hvalids' hvalids hsame)).1.symm

end World

/-! ### Where a walk stops -/

/-- An entry below the root of a walk: the directories on the way to it, its name and what it is. -/
structure Stop where
  dirs : List Name
  name : Name
  node : Node

namespace Stop

/-- The names that lead to the entry. -/
def chain (s : Stop) : List Name := s.dirs ++ [s.name]

/-- The path of the entry as a walk from `root` spells it. -/
def path (root : Path) (s : Stop) : Path := root.joinAll s.chain

/-- The name that the rules are held against. -/
def shownName (s : Stop) : String := Utf8.replaceBroken s.name

theorem path_eq_join (root : Path) (s : Stop) : s.path root = (root.joinAll s.dirs).join s.name := by
  rw [path, chain, Path.joinAll_append]
  rfl

/-- A chain of names leads to one entry. -/
theorem eq_of_chain {s t : Stop} {top : Node} (h : s.chain = t.chain)
    (hs : top.at? s.chain = some s.node) (ht : top.at? t.chain = some t.node) : s = t := by
  rw [h, ht] at hs
  obtain ⟨hdirs, hname⟩ := List.append_inj' h rfl
  cases s
  cases t
  simp_all

end Stop

namespace World

variable {w : World} {config : Config} {rules : Rules} {root : Path} {entries : Listing}
  {place : Place} {v : Visit} {r : Record} {s t : Stop}

/-- A walk comes to the entries of each directory that it can list: the names lead to it through real
directories, none of them is left out, and its path is not too long for the system. -/
structure ComesTo (rules : Rules) (root : Path) (entries : Listing) (s : Stop) : Prop where
  entry : (Node.directory entries).at? s.chain = some s.node
  kept : ∀ dir ∈ s.dirs, rules.exclusion.excludes (Utf8.replaceBroken dir) = false
  listed : (root.joinAll s.dirs).bytes.length < maxPath

/-- The entries of which there is something to tell: what is neither a directory nor a link to one, and
directories that are left out or cannot be listed. -/
def Remarkable (w : World) (rules : Rules) (root : Path) (s : Stop) : Prop :=
  w.ranksAsDirectory (s.path root) s.node = false ∨
    s.node.isDirectory = true ∧ (rules.exclusion.excludes s.shownName = true ∨
      maxPath ≤ (s.path root).bytes.length)

/-- What the log tells of an entry. -/
inductive Noted (w : World) (rules : Rules) (root : Path) (s : Stop) : Record → Prop
  | unselected (file : w.ranksAsDirectory (s.path root) s.node = false)
      (rejected : rules.inclusion.selects s.shownName = false) :
      Noted w rules root s ⟨.trace, walkSource, "Not selected: " ++ (s.path root).shown⟩
  | read {bytes : Bytes} (file : w.ranksAsDirectory (s.path root) s.node = false)
      (selected : rules.inclusion.selects s.shownName = true)
      (content : w.read (s.path root) = .ok bytes) :
      Noted w rules root s (Entry.found root s.dirs s.name bytes).note
  | failed {cause : IoError} (file : w.ranksAsDirectory (s.path root) s.node = false)
      (selected : rules.inclusion.selects s.shownName = true)
      (refused : w.read (s.path root) = .error cause) :
      Noted w rules root s (Failure.read (s.path root) cause).note
  | pruned (directory : s.node.isDirectory = true)
      (excluded : rules.exclusion.excludes s.shownName = true) :
      Noted w rules root s
        ⟨.trace, walkSource, "Pruning excluded directory: " ++ (s.path root).shown⟩
  | unlisted (directory : s.node.isDirectory = true)
      (kept : rules.exclusion.excludes s.shownName = false)
      (tooLong : maxPath ≤ (s.path root).bytes.length) :
      Noted w rules root s
        ⟨.warn, walkSource, "Error walking directory: IO error for operation on " ++
          (s.path root).shown ++ ": " ++ (IoError.os .nameTooLong).message⟩

/-- The visits of a walk to an entry. -/
def visitsTo (w : World) (config : Config) (root : Path) (s : Stop) : List Visit :=
  w.ownVisits config root (root.joinAll s.dirs) (s.name, s.node)

theorem path_visitsTo (h : v ∈ w.visitsTo config root s) : v.path = s.path root := by
  rw [path_ownVisits h, s.path_eq_join]

/-- A walk comes to an entry where it enters the directory that holds it. -/
theorem comesTo_iff (hroot : root.refusal? = none) (hvalid : (Node.directory entries).Valid) :
    ComesTo rules root entries s ↔
      ∃ found, Enters rules.exclusion root entries s.dirs found ∧ (s.name, s.node) ∈ found := by
  constructor
  · rintro ⟨hentry, hkept, hlisted⟩
    obtain ⟨found, hfound, hfind⟩ := Node.at?_concat_eq_some hentry
    exact ⟨found, enters_of_short hroot hvalid hfound hlisted hkept, Listing.mem_of_find? hfind⟩
  · rintro ⟨found, henters, hmem⟩
    have htaken := refusal?_eq_none_iff.1 (henters.refusal? hroot)
    exact ⟨henters.at?_concat hvalid hmem, henters.kept, htaken.2.2⟩

/-- The visits of a walk are those to the entries that it comes to. -/
theorem mem_walk_iff (hdisk : w.disk.Valid)
    (hroot : w.follow root = .ok (place, .directory entries)) :
    v ∈ w.walk config root ↔
      ∃ s, ComesTo config.rules root entries s ∧ v ∈ w.visitsTo config root s := by
  obtain ⟨hrefusal, -, -, htop, -⟩ := follow_eq_ok_iff.1 hroot
  have hcomes : ∀ s, ComesTo config.rules root entries s ↔ ∃ found,
      Enters config.rules.exclusion root entries s.dirs found ∧ (s.name, s.node) ∈ found :=
    fun s => comesTo_iff hrefusal (hdisk.node? htop)
  rw [walk_of_follow hroot]
  simp only [hcomes]
  refine (mem_descend_iff (.directory entries)).trans ⟨?_, ?_⟩
  · rintro ⟨names, found, e, henters, he, hown⟩
    exact ⟨⟨names, e.1, e.2⟩, ⟨found, henters, he⟩, hown⟩
  · rintro ⟨s, ⟨found, henters, hmem⟩, hown⟩
    exact ⟨s.dirs, found, (s.name, s.node), henters, hmem, hown⟩

/-- An entry is visited once or not at all. -/
theorem visitsTo_eq (hroot : root.refusal? = none) (hchain : ∀ name ∈ s.chain, Name.Valid name) :
    w.visitsTo config root s =
      if s.node.isDirectory then
        if config.rules.exclusion.excludes s.shownName then [.pruned (s.path root)]
        else if maxPath ≤ (s.path root).bytes.length then
          [.unlisted (s.path root) (.os .nameTooLong)]
        else []
      else if w.ranksAsDirectory (s.path root) s.node then []
      else [w.visitFile config.rules root (s.path root) s.name] := by
  have hrefusal : (s.path root).refusal? =
      if maxPath ≤ (s.path root).bytes.length then some (.os .nameTooLong) else none :=
    refusal?_joinAll hroot hchain
  rw [visitsTo, ownVisits, ← s.path_eq_join, hrefusal]
  by_cases hlong : maxPath ≤ (s.path root).bytes.length
  · simp only [if_pos hlong]
    rfl
  · simp only [if_neg hlong]
    rfl

/-- The record of a visit to an entry is what the log tells of it. -/
theorem noted_of_mem_visitsTo (hroot : root.refusal? = none)
    (hchain : ∀ name ∈ s.chain, Name.Valid name) (h : v ∈ w.visitsTo config root s) :
    w.Noted config.rules root s v.record := by
  rw [visitsTo_eq hroot hchain] at h
  split at h
  · next hdir =>
    split at h
    · next hexcluded =>
      rw [List.mem_singleton.1 h]
      exact .pruned hdir hexcluded
    · next hkept =>
      split at h
      · next hlong =>
        rw [List.mem_singleton.1 h]
        exact .unlisted hdir (Bool.eq_false_iff.2 hkept) hlong
      · cases h
  · split at h
    · cases h
    · next hrank =>
      have hfile := Bool.eq_false_iff.2 hrank
      rw [List.mem_singleton.1 h, visitFile]
      split
      · next hselected =>
        split
        · next bytes hread =>
          have hrelative := Path.relativeTo?_joinAll root hchain
          rw [← Stop.path] at hrelative
          rw [hrelative]
          exact .read hfile hselected hread
        · next cause hread => exact .failed hfile hselected hread
      · next hrejected => exact .unselected hfile (Bool.eq_false_iff.2 hrejected)

/-- An entry is visited where there is something to tell of it. -/
theorem exists_visitsTo_iff (hroot : root.refusal? = none)
    (hchain : ∀ name ∈ s.chain, Name.Valid name) :
    (∃ v, v ∈ w.visitsTo config root s) ↔ w.Remarkable config.rules root s := by
  rw [visitsTo_eq hroot hchain, Remarkable]
  cases hdir : s.node.isDirectory with
  | true =>
    have hrank : w.ranksAsDirectory (s.path root) s.node = true := by
      rw [Node.eq_directory hdir]
      rfl
    cases hexcluded : config.rules.exclusion.excludes s.shownName with
    | true => simp
    | false => by_cases hlong : maxPath ≤ (s.path root).bytes.length <;> simp [hlong, hrank]
  | false => cases hrank : w.ranksAsDirectory (s.path root) s.node <;> simp

/-! ### The log as a whole -/

theorem walkEvents_records (visits : List Visit) :
    (walkEvents root visits).map Event.record =
      ⟨.info, walkSource, "Walking project directory: " ++ root.shown⟩ :: visits.map Visit.record ++
        [⟨.info, walkSource,
          "Directory walk complete. Read " ++ toString (Collection.ofVisits visits).files.length ++
            " files, " ++ toString (Collection.ofVisits visits).failures.length ++ " failed."⟩] := by
  simp only [walkEvents, List.map_append, List.map_cons, List.map_map]
  rfl

theorem record_mem_walkEvents {visits : List Visit} (hv : v ∈ visits) :
    v.record ∈ (walkEvents root visits).map Event.record := by
  rw [walkEvents_records]
  exact List.mem_append_left _ (List.mem_cons_of_mem _ (List.mem_map_of_mem hv))

/-- What opens and closes the log of a walk tells of no file. -/
theorem filter_walkEvents {tells : Record → Bool}
    (htells : ∀ r : Record, r.level = .info → tells r = false) (visits : List Visit) :
    ((walkEvents root visits).map Event.record).filter tells =
      (visits.map Visit.record).filter tells := by
  rw [walkEvents_records, List.filter_append, List.filter_cons_of_neg (by simp [htells]),
    List.filter_cons_of_neg (by simp [htells]), List.filter_nil, List.append_nil]

/-- Only of directories that cannot be listed does the log of a walk warn. -/
theorem unlisted_of_warn {visits : List Visit}
    (hr : r ∈ (walkEvents root visits).map Event.record) (hwarn : r.level = .warn) :
    ∃ p cause, Visit.unlisted p cause ∈ visits := by
  obtain ⟨event, hevent, rfl⟩ := List.mem_map.1 hr
  rcases List.mem_append.1 hevent with hfirst | hlast
  · rcases List.mem_cons.1 hfirst with rfl | hvisit
    · cases hwarn
    · obtain ⟨v, hv, rfl⟩ := List.mem_map.1 hvisit
      cases v with
      | unlisted p cause => exact ⟨p, cause, hv⟩
      | _ => cases hwarn
  · rw [List.mem_singleton.1 hlast] at hwarn
    cases hwarn

/-- The entries that a walk stops at, one for each visit. -/
theorem exists_stops (config : Config) (hdisk : w.disk.Valid)
    (hroot : w.follow root = .ok (place, .directory entries)) :
    ∃ stops : List Stop,
      List.Forall₂ (w.Noted config.rules root) stops ((w.walk config root).map Visit.record) ∧
      (stops.map Stop.chain).Nodup ∧
      ∀ s, s ∈ stops ↔
        ComesTo config.rules root entries s ∧ w.Remarkable config.rules root s := by
  obtain ⟨hrefusal, -, -, htop, -⟩ := follow_eq_ok_iff.1 hroot
  have hvalid := hdisk.node? htop
  have hchain : ∀ s, ComesTo config.rules root entries s → ∀ name ∈ s.chain, Name.Valid name :=
    fun s hs => hvalid.names hs.entry
  have hstop : ∀ v, ∃ s, v ∈ w.walk config root →
      ComesTo config.rules root entries s ∧ v ∈ w.visitsTo config root s := by
    intro v
    by_cases hv : v ∈ w.walk config root
    · obtain ⟨s, hs⟩ := (mem_walk_iff hdisk hroot).1 hv
      exact ⟨s, fun _ => hs⟩
    · exact ⟨⟨[], [], .directory []⟩, fun h => absurd h hv⟩
  choose stop hcomes using hstop
  have hpaths : ((w.walk config root).map fun v => root.joinAll (stop v).chain) =
      (w.walk config root).map Visit.path := by
    refine List.map_congr_left fun v hv => ?_
    exact (path_visitsTo (hcomes v hv).2).symm
  refine ⟨(w.walk config root).map stop, ?_, ?_, ?_⟩
  · rw [List.forall₂_map_left_iff, List.forall₂_map_right_iff, List.forall₂_same]
    intro v hv
    exact noted_of_mem_visitsTo hrefusal (hchain _ (hcomes v hv).1) (hcomes v hv).2
  · refine List.Nodup.of_map root.joinAll ?_
    rw [List.map_map, List.map_map]
    change ((w.walk config root).map fun v => root.joinAll (stop v).chain).Nodup
    rw [hpaths, walk_of_follow hroot]
    exact nodup_path_descend (.directory entries) hvalid
  · intro s
    rw [List.mem_map]
    constructor
    · rintro ⟨v, hv, rfl⟩
      obtain ⟨hs, hvisit⟩ := hcomes v hv
      exact ⟨hs, (exists_visitsTo_iff hrefusal (hchain _ hs)).1 ⟨v, hvisit⟩⟩
    · rintro ⟨hs, hremarkable⟩
      obtain ⟨v, hvisit⟩ := (exists_visitsTo_iff hrefusal (hchain s hs)).2 hremarkable
      have hv := (mem_walk_iff hdisk hroot).2 ⟨s, hs, hvisit⟩
      obtain ⟨hs', hvisit'⟩ := hcomes v hv
      refine ⟨v, hv, ?_⟩
      have hsame : (stop v).chain = s.chain :=
        Path.joinAll_injective (hchain _ hs') (hchain _ hs)
          ((path_visitsTo hvisit').symm.trans (path_visitsTo hvisit))
      exact Stop.eq_of_chain hsame hs'.entry hs.entry

/-- The log of a walk from a directory. Between the record that opens it and the one that closes it with
the numbers of files and failures stands one record for each entry that the walk comes to and of which
there is something to tell, hence none of what lies below a directory that is left out. The records of
files that were read and of those that could not be read repeat files and failures in order, and the
sizes in the former add up to that of the collection. Only of directories whose paths are too long does
the log warn. -/
theorem walk_accounts (w : World) (config : Config) (root : Path) (hdisk : w.disk.Valid)
    (hroot : w.follow root = .ok (place, .directory entries)) :
    let records := (walkEvents root (w.walk config root)).map Event.record
    let found := w.collect config root
    (∃ stops notes,
      records = ⟨.info, walkSource, "Walking project directory: " ++ root.shown⟩ :: notes ++
        [⟨.info, walkSource, "Directory walk complete. Read " ++ toString found.files.length ++
          " files, " ++ toString found.failures.length ++ " failed."⟩] ∧
      List.Forall₂ (w.Noted config.rules root) stops notes ∧
      (stops.map Stop.chain).Nodup ∧
      (∀ s, s ∈ stops ↔
        ComesTo config.rules root entries s ∧ w.Remarkable config.rules root s) ∧
      ∀ s ∈ stops, ∀ t ∈ stops, t.node.isDirectory = true →
        config.rules.exclusion.excludes t.shownName = true → ¬ t.chain <+: s.dirs) ∧
    records.filter Record.tellsRead = found.files.map Entry.note ∧
    records.filter Record.tellsFailure = found.failures.map Failure.note ∧
    ((records.filter Record.tellsRead).map Record.bytesRead).sum = found.totalBytes ∧
    (Fits config.rules root entries → ∀ r ∈ records, r.level ≠ .warn) := by
  intro records found
  have hread : records.filter Record.tellsRead = found.files.map Entry.note :=
    (filter_walkEvents (by simp +contextual [Record.tellsRead]) _).trans (filter_tellsRead _)
  have hfailure : records.filter Record.tellsFailure = found.failures.map Failure.note :=
    (filter_walkEvents (by simp +contextual [Record.tellsFailure]) _).trans (filter_tellsFailure _)
  refine ⟨?_, hread, hfailure, ?_, ?_⟩
  · obtain ⟨stops, hnoted, hnodup, hmem⟩ := exists_stops config hdisk hroot
    refine ⟨stops, _, walkEvents_records _, hnoted, hnodup, hmem, ?_⟩
    rintro s hs t - - hexcluded ⟨rest, hbelow⟩
    have hkept := ((hmem s).1 hs).1.kept t.name (by simp [← hbelow, Stop.chain])
    rw [← Stop.shownName, hexcluded] at hkept
    cases hkept
  · rw [hread, Collection.totalBytes_eq_totalSize]
    exact sum_bytesRead found.files
  · intro hfits r hr hwarn
    obtain ⟨p, cause, hunlisted⟩ := unlisted_of_warn hr hwarn
    exact unlisted_notMem_walk hdisk hroot hfits p cause hunlisted

/-- The log of the walk over the project on the small disk. -/
theorem walk_accounts_sample :
    Disk.sample.Valid ∧
      sample.follow ⟨[0x2F, 0x70]⟩ = .ok (.named [[0x70]], .directory Disk.project) ∧
      Fits .builtin ⟨[0x2F, 0x70]⟩ Disk.project ∧
      ((((walkEvents ⟨[0x2F, 0x70]⟩ (sample.walk .builtin ⟨[0x2F, 0x70]⟩)).map
        Event.record).filter Record.tellsRead).map Record.bytesRead).sum =
          (sample.collect .builtin ⟨[0x2F, 0x70]⟩).totalBytes ∧
      ∀ r ∈ (walkEvents ⟨[0x2F, 0x70]⟩ (sample.walk .builtin ⟨[0x2F, 0x70]⟩)).map Event.record,
        r.level ≠ .warn := by
  have hroot : sample.follow ⟨[0x2F, 0x70]⟩ = .ok (.named [[0x70]], .directory Disk.project) := rfl
  have hfits : Fits .builtin ⟨[0x2F, 0x70]⟩ Disk.project := fits_of_reach (by decide)
  obtain ⟨-, -, -, hbytes, hwarns⟩ :=
    walk_accounts sample .builtin ⟨[0x2F, 0x70]⟩ Disk.valid_sample hroot
  exact ⟨Disk.valid_sample, hroot, hfits, hbytes, hwarns hfits⟩

/-! ### A directory that is too deep -/

/-- The directories that cannot be listed are those that a walk comes to, does not leave out, and finds
under a path that is too long. -/
theorem unlisted_mem_walk_iff (hdisk : w.disk.Valid)
    (hroot : w.follow root = .ok (place, .directory entries)) {p : Path} {cause : IoError} :
    Visit.unlisted p cause ∈ w.walk config root ↔
      cause = .os .nameTooLong ∧ maxPath ≤ p.bytes.length ∧
        ∃ s, ComesTo config.rules root entries s ∧ s.path root = p ∧ s.node.isDirectory = true ∧
          config.rules.exclusion.excludes s.shownName = false := by
  obtain ⟨hrefusal, -, -, htop, -⟩ := follow_eq_ok_iff.1 hroot
  have hvisits : ∀ s, ComesTo config.rules root entries s →
      (Visit.unlisted p cause ∈ w.visitsTo config root s ↔
        cause = .os .nameTooLong ∧ maxPath ≤ p.bytes.length ∧ s.path root = p ∧
          s.node.isDirectory = true ∧ config.rules.exclusion.excludes s.shownName = false) := by
    intro s hs
    rw [visitsTo_eq hrefusal ((hdisk.node? htop).names hs.entry)]
    constructor
    · intro h
      split at h
      · next hdir =>
        split at h
        · simp at h
        · next hkept =>
          split at h
          · next hlong =>
            obtain ⟨rfl, rfl⟩ := Visit.unlisted.inj (List.mem_singleton.1 h)
            exact ⟨rfl, hlong, rfl, hdir, Bool.eq_false_iff.2 hkept⟩
          · cases h
      · split at h
        · cases h
        · exact absurd (List.mem_singleton.1 h).symm visitFile_ne_unlisted
    · rintro ⟨rfl, hlong, rfl, hdir, hkept⟩
      simp [hdir, hkept, hlong]
  rw [mem_walk_iff hdisk hroot]
  constructor
  · rintro ⟨s, hs, hmem⟩
    obtain ⟨hcause, hlong, hpath, hdir, hkept⟩ := (hvisits s hs).1 hmem
    exact ⟨hcause, hlong, s, hs, hpath, hdir, hkept⟩
  · rintro ⟨hcause, hlong, s, hs, hpath, hdir, hkept⟩
    exact ⟨s, hs, (hvisits s hs).2 ⟨hcause, hlong, hpath, hdir, hkept⟩⟩

/-- So it is with the sixteenth of nested directories that have the longest names. -/
theorem unlisted_mem_walk_deep (hrules : config.rules = .builtin) {sub : Listing}
    (hdisk : w.disk.Valid)
    (hsub : w.disk.node? (.named (List.replicate 15 longName ++ [longName])) =
      some (.directory sub)) :
    Visit.unlisted ((Path.ofTrail []).joinAll (List.replicate 15 longName ++ [longName]))
      (.os .nameTooLong) ∈ w.walk config (.ofTrail []) := by
  have hfollow : w.follow (.ofTrail []) = .ok (.named [], .directory w.disk.entries) :=
    follow_ofTrail hdisk rfl (by decide)
  have hlength : ∀ depth, ((Path.ofTrail []).joinAll
      (List.replicate (depth + 1) longName)).bytes.length = (depth + 1) * 256 := by
    intro depth
    have hvalid : ∀ name ∈ List.replicate (depth + 1) longName, Name.Valid name := by
      simp [valid_longName]
    rw [← Path.ofTrail_append hvalid, List.nil_append, length_ofTrail_deep]
  have hkept : config.rules.exclusion.excludes (Utf8.replaceBroken longName) = false := by
    rw [hrules]
    decide +kernel
  have hlisted : ((Path.ofTrail []).joinAll (List.replicate 15 longName)).bytes.length < maxPath := by
    rw [hlength]
    decide
  have hcomes : ComesTo config.rules (.ofTrail []) w.disk.entries
      ⟨List.replicate 15 longName, longName, .directory sub⟩ := by
    refine ⟨hsub, ?_, hlisted⟩
    intro dir hdir
    rwa [List.eq_of_mem_replicate hdir]
  refine (unlisted_mem_walk_iff hdisk hfollow).2 ⟨rfl, ?_, _, hcomes, rfl, rfl, hkept⟩
  rw [← List.replicate_succ', hlength]
  decide

/-- Of a directory with a path too long for the system the log has a record that is neither of a file nor
of a directory that is left out: it warns. -/
theorem walk_warns_of_deep_directory :
    (deep 16).Valid ∧ (deep 16).isDirectory (.ofTrail []) = true ∧
      ¬ ∀ r ∈ (walkEvents (.ofTrail []) ((deep 16).walk .builtin (.ofTrail []))).map Event.record,
        r.level = .info ∨ r.level = .debug ∨ r.level = .trace := by
  have hdisk := (valid_deep 16).disk
  have hsub : (deep 16).disk.node? (.named (List.replicate 15 longName ++ [longName])) =
      some (.directory []) := node?_deep 16
  have hwarned := unlisted_mem_walk_deep (rfl : Config.builtin.rules = .builtin) hdisk hsub
  have hfollow : (deep 16).follow (.ofTrail []) = .ok (.named [], .directory (nested 16)) :=
    follow_ofTrail hdisk rfl (by decide)
  refine ⟨valid_deep 16, isDirectory_iff.2 ⟨_, _, hfollow⟩, fun hlevels => ?_⟩
  rcases hlevels _ (record_mem_walkEvents hwarned) with h | h | h <;> cases h

end World

end SourceBundle
