import SourceBundle.Proofs.Disk.Rewriting

/-!
Where a saved document comes to stand. On a disk without links the names of a path lead down from
directory to directory, so what is written to a path that goes on from a directory stands at the end
of its names, and everything else that is no directory stands as it stood.
-/

namespace SourceBundle

/-! ### Straight walks down -/

namespace Disk

variable {d : Disk} {place there next : Place} {name : Name} {names rest : List Name}

/-- A straight walk that finds something goes on from every place on the way. -/
theorem move_of_advance (h : d.advance true place (name :: rest) = .found there) :
    ∃ next, d.turn place name = .move next ∧ d.advance true next rest = .found there := by
  rw [advance_cons] at h
  cases hturn : d.turn place name with
  | move next =>
    rw [hturn] at h
    exact ⟨next, rfl, h⟩
  | link target => rw [hturn] at h; cases rest <;> simp at h
  | missing => rw [hturn] at h; cases rest <;> simp at h
  | barred cause => rw [hturn] at h; simp at h

/-- A step that is none of dots goes down, from a directory that is there, under a name that is not too
long. -/
theorem child_of_turn (h : d.turn place name = .move next) (hdot : name ≠ Bytes.dot)
    (hdotDot : name ≠ Bytes.dotDot) :
    ∃ trail, place = .named trail ∧ next = .named (trail ++ [name]) ∧ name.length ≤ maxName := by
  cases place with
  | removed above =>
    rw [turn] at h
    simp only [node?, if_neg hdot, if_neg hdotDot] at h
    cases h
  | named trail =>
    obtain ⟨entries, hnode⟩ := directory_of_turn (.inl ⟨next, h⟩)
    obtain ⟨rfl, -⟩ := entry_of_move hdot hdotDot h
    rw [turn_of_directory hdot hdotDot hnode] at h
    split at h
    · cases h
    · next hlength => exact ⟨trail, rfl, rfl, Nat.not_lt.1 hlength⟩

/-- A straight walk takes no name that is too long. -/
theorem length_of_advance (h : d.advance true place names = .found there) :
    ∀ name ∈ names, name ≠ Bytes.dot → name ≠ Bytes.dotDot → name.length ≤ maxName := by
  induction names generalizing place with
  | nil => simp
  | cons name rest ih =>
    obtain ⟨next, hturn, hrest⟩ := move_of_advance h
    refine List.forall_mem_cons.2 ⟨?_, ih hrest⟩
    intro hdot hdotDot
    obtain ⟨_, -, -, hlength⟩ := child_of_turn hturn hdot hdotDot
    exact hlength

/-- A straight walk that names lead ends right below where it started. -/
theorem below_of_advance (h : d.advance true place names = .found there)
    (hnames : ∀ name ∈ names, Name.Normal name) (hne : names ≠ []) :
    ∃ trail, place = .named trail ∧ there = .named (trail ++ names) := by
  induction names generalizing place with
  | nil => exact absurd rfl hne
  | cons name rest ih =>
    obtain ⟨hname, hrest⟩ := List.forall_mem_cons.1 hnames
    obtain ⟨next, hturn, hadvance⟩ := move_of_advance h
    obtain ⟨trail, rfl, rfl, -⟩ := child_of_turn hturn hname.ne_dot hname.ne_dotDot
    refine ⟨trail, rfl, ?_⟩
    by_cases hend : rest = []
    · subst hend
      exact (Halt.found.inj ((advance_nil ..).symm.trans hadvance)).symm
    · obtain ⟨_, hnext, hthere⟩ := ih hadvance hrest hend
      obtain rfl := Place.named.inj hnext
      simpa using hthere

end Disk

namespace World

variable {w w' : World} {root : Path} {place there : Place} {node : Node} {entries : Listing}
  {names trail : List Name} {content : Bytes} {text : String}

/-- Without links a path that goes on from a directory leads below it, and a directory can hold all its
names. -/
theorem place_of_follow (hlinks : w.disk.Linkless)
    (hroot : w.follow root = .ok (place, .directory entries))
    (hnames : ∀ name ∈ names, Name.Normal name) (hne : names ≠ [])
    (h : w.follow (root.joinAll names) = .ok (there, node)) :
    (∀ name ∈ names, Name.Valid name) ∧
      ∃ trail, place = .named trail ∧ there = .named (trail ++ names) := by
  obtain ⟨-, _, hstart, -, -⟩ := follow_eq_ok_iff.1 hroot
  obtain ⟨hrefusal, _, hlocate, -, -⟩ := follow_eq_ok_iff.1 h
  have hsteps := Path.steps_joinAll_of_normal root hnames
  have hwhole := hlinks.advance_of_chase hlocate
  -- what the walk took and what the system did not refuse, a directory can hold
  have hvalid : ∀ name ∈ names, Name.Valid name := by
    intro name hname
    have hmem : name ∈ (root.joinAll names).steps := by
      rw [hsteps]
      exact List.mem_append_right _ hname
    obtain ⟨hnonempty, hdot, hdotDot, hslash⟩ := hnames name hname
    obtain ⟨-, -, hbytes⟩ := Path.mem_steps hmem
    refine ⟨hnonempty, hdot, hdotDot, hslash, ?_, Disk.length_of_advance hwhole name hmem hdot hdotDot⟩
    intro hzero
    exact (refusal?_eq_none_iff.1 hrefusal).1 (hbytes 0 hzero)
  refine ⟨hvalid, ?_⟩
  have horigin : Disk.origin (root.joinAll names) w.cwd = Disk.origin root w.cwd := by
    simp [Disk.origin, Path.isAbsolute_joinAll root hvalid]
  rw [hsteps, horigin, Disk.advance_append (hlinks.advance_of_chase hstart)] at hwhole
  exact Disk.below_of_advance hwhole hnames hne

/-! ### What a saved document leaves -/

/-- The second world is the first but for new directories and for what stands where `changed` tells. -/
structure Spares (w w' : World) (changed : List Name → Prop) : Prop where
  rest : w' = { w with disk := w'.disk }
  valid : w'.disk.Valid
  keeps : w'.disk.Keeps w.disk
  same : ∀ other node, ¬ changed other → node.isDirectory = false →
    (w'.disk.node? (.named other) = some node ↔ w.disk.node? (.named other) = some node)

/-- The second world is the first but for new directories and the file at `there`. -/
structure Saved (w w' : World) (there : List Name) (content : Bytes) : Prop
    extends Spares w w' (· = there) where
  file : w'.disk.node? (.named there) = some (.file content)

/-- A file is no link. -/
theorem Saved.linkless {there : List Name} (h : w.Saved w' there content)
    (hlinks : w.disk.Linkless) : w'.disk.Linkless := by
  intro other target hlink
  by_cases heq : other = there
  · rw [heq, h.file] at hlink
    cases hlink
  · exact hlinks _ _ ((h.same other _ heq rfl).1 hlink)

/-- Making directories spares everything. -/
theorem DirectoriesMade.spares {paths : List Path} (h : DirectoriesMade w w' paths)
    (hdisk : w.disk.Valid) : w.Spares w' fun _ => False :=
  ⟨h.rest, h.valid hdisk, h.keeps, fun _ _ _ hleaf => h.eq_some_iff hleaf⟩

theorem Spares.linkless (h : w.Spares w' fun _ => False) (hlinks : w.disk.Linkless) :
    w'.disk.Linkless := fun other _ hlink => hlinks _ _ ((h.same other _ id rfl).1 hlink)

/-- Making directories and putting a file makes up a saving. -/
theorem DirectoriesMade.saved {prepared : World} {paths : List Path} {name : Name}
    (h : DirectoriesMade w prepared paths) (hdisk : w.disk.Valid)
    (hat : prepared.disk.node? (.named trail) = some (.directory entries))
    (hfree : ∀ old, Listing.find? entries name = some old → ∃ bytes, old = .file bytes)
    (hname : Name.Valid name) :
    w.Saved { prepared with disk := prepared.disk.put trail name (.file content) }
      (trail ++ [name]) content := by
  refine ⟨⟨?_, (h.valid hdisk).put hname (Node.valid_of_not_directory rfl),
    (keeps_put_file content hat hfree).trans h.keeps, ?_⟩, Disk.node?_put hat _⟩
  · rw [h.rest]
  · intro other node hne hleaf
    rw [node?_put_file_iff hat hfree hleaf, if_neg hne]
    exact h.eq_some_iff hleaf

/-- Without links a document that is written to a path below a directory stands there at the end of the
path's names. Only where a device does, everything stays as it was but for new directories. -/
theorem saved_of_writeDocument (hdisk : w.disk.Valid) (hlinks : w.disk.Linkless)
    (hroot : w.follow root = .ok (place, .directory entries))
    (hnames : ∀ name ∈ names, Name.Normal name) (hne : names ≠ [])
    (h : w.writeDocument (root.joinAll names) text = (w', .ok ())) :
    (root.joinAll names).refusal? = none ∧ (∀ name ∈ names, Name.Valid name) ∧
      ∃ trail, place = .named trail ∧
        ((∀ kind, (Node.directory entries).at? names ≠ some (.device kind)) ∧
            w.Saved w' (trail ++ names) (Bytes.ofString text) ∨
          (∃ kind, (Node.directory entries).at? names = some (.device kind)) ∧
            w.Spares w' fun _ => False) := by
  obtain ⟨-, -, -, htop, -⟩ := follow_eq_ok_iff.1 hroot
  obtain ⟨prepared, hprepared, hwritten⟩ := writeDocument_eq_ok h
  have hmade : DirectoriesMade w prepared (parents (root.joinAll names)) := by
    have hprepares := w.directoriesMade_prepareParent (root.joinAll names)
    rwa [hprepared] at hprepares
  have hlinks' : prepared.disk.Linkless := (hmade.spares hdisk).linkless hlinks
  obtain ⟨found, hfound, -, hdirectory⟩ := hmade.follow hroot
  rw [Node.eq_directory hdirectory] at hfound
  obtain ⟨hrefusal, hwrites⟩ := writes_of_writeFile hwritten
  refine ⟨hrefusal, ?_⟩
  cases hwrites with
  | device reached standing _ =>
    obtain ⟨hvalid, trail, rfl, rfl⟩ := place_of_follow hlinks' hfound hnames hne
      (follow_of_destination hrefusal reached standing)
    rw [hmade.eq_some_iff rfl, Disk.node?_append htop] at standing
    exact ⟨hvalid, trail, rfl, .inr ⟨⟨_, standing⟩, hmade.spares hdisk⟩⟩
  | @file above name listed into free reached =>
    have hput : (prepared.disk.put above name (.file (Bytes.ofString text))).node?
        (.named (above ++ [name])) = some (.file (Bytes.ofString text)) := Disk.node?_put into _
    obtain ⟨found', hfound', -, hdirectory'⟩ :=
      follow_of_keeps (keeps_put_file (Bytes.ofString text) into free) hfound
    rw [Node.eq_directory hdirectory'] at hfound'
    obtain ⟨hvalid, trail, rfl, hthere⟩ := place_of_follow
      (w := { prepared with disk := prepared.disk.put above name (.file (Bytes.ofString text)) })
      (linkless_put_file hlinks' into free) hfound' hnames hne (follow_of_destination hrefusal reached hput)
    have hthere := Place.named.inj hthere
    have hname : Name.Valid name := by
      obtain ⟨front, last, rfl⟩ := (List.eq_nil_or_concat' names).resolve_left hne
      rw [← List.append_assoc] at hthere
      obtain rfl := List.singleton_inj.1 (List.append_inj' hthere rfl).2
      exact hvalid name (by simp)
    -- a file takes the place of no device
    have hdevice : ∀ kind, (Node.directory entries).at? names ≠ some (.device kind) := by
      intro kind hkind
      rw [← Disk.node?_append htop, ← hmade.eq_some_iff rfl, ← hthere, Disk.node?_listed into] at hkind
      obtain ⟨bytes, hbytes⟩ := free _ hkind
      cases hbytes
    refine ⟨hvalid, trail, rfl, .inl ⟨hdevice, ?_⟩⟩
    rw [← hthere]
    exact hmade.saved hdisk into free hname

end World

end SourceBundle
