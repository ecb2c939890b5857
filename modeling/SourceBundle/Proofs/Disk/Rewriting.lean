import SourceBundle.Proofs.Disk.Making
import SourceBundle.Proofs.Disk.Resolving
import SourceBundle.Proofs.Disk.Writing

/-!
A document written twice. On a disk without links the last name of a path is the name of the file that
is written, so a writing leaves a disk on which all that is new are directories and one file of that
name. There the root is found again, and writing the same document once more changes nothing: the
directories are there, and the file is replaced by itself.
-/

namespace SourceBundle

/-! ### Putting what is there -/

theorem Listing.put_self {entries : Listing} {name : Name} {node : Node}
    (h : find? entries name = some node) : put name node entries = entries := by
  induction entries with
  | nil => cases h
  | cons first rest ih =>
    rw [find?_cons] at h
    rw [put]
    by_cases hname : first.1 = name
    · rw [if_pos hname.symm] at h
      obtain ⟨rfl⟩ := h
      rw [if_pos hname, ← hname]
    · rw [if_neg (Ne.symm hname)] at h
      rw [if_neg hname, ih h]

/-- A valid tree stays as it is when what stands in it is put there again. -/
theorem Node.put_self {node new : Node} {trail : List Name} {name : Name} (hvalid : node.Valid)
    (h : node.at? (trail ++ [name]) = some new) :
    node.modify (Listing.put name new) trail = node := by
  induction trail generalizing node with
  | nil =>
    obtain ⟨entries, hat, hfind⟩ := at?_concat_eq_some h
    obtain ⟨rfl⟩ := hat
    rw [modify, Listing.put_self hfind]
  | cons dir trail ih =>
    rw [List.cons_append] at h
    obtain ⟨entries, child, rfl, hfind, hchild⟩ := at?_cons_eq_some h
    rw [modify_cons]
    refine congrArg Node.directory ((List.map_congr_left ?_).trans (List.map_id entries))
    intro e he
    split
    · next hname =>
      have hsame := Listing.find?_of_mem hvalid.listing.nodup he
      rw [hname, hfind] at hsame
      obtain rfl := Option.some.inj hsame
      rw [ih (hvalid.find? hfind) hchild]
      rfl
    · rfl

namespace Disk

variable {d d' : Disk} {place there : Place} {here trail names rest : List Name} {name : Name}
  {target : Path} {node : Node} {followLast slash s : Bool} {links : Nat}

theorem put_self (hvalid : d.Valid)
    (h : d.node? (.named (trail ++ [name])) = some node) : d.put trail name node = d := by
  have hroot : (d.put trail name node).root = d.root := by
    rw [root_put]
    exact Node.put_self hvalid h
  exact congrArg Disk.mk (Node.directory.inj hroot)

/-! ### Disks without links -/

/-- Whether no link stands on the disk. -/
def Linkless (d : Disk) : Prop := ∀ trail target, d.node? (.named trail) ≠ some (.link target)

theorem Linkless.turn_ne_link (h : d.Linkless) : d.turn place name ≠ .link target := by
  intro hturn
  have hlink := node?_of_turn_link hturn
  cases place with
  | named trail => exact h _ _ hlink
  | removed above => cases hlink

/-- Without links a walk is straight. -/
theorem Linkless.advance_of_chase (h : d.Linkless)
    (hchase : d.chase true links place names slash = .found there s) :
    d.advance true place names = .found there := by
  have hstraight : ∀ place dir target rest, d.advance true place names ≠ .link dir target rest := by
    clear hchase
    induction names with
    | nil => simp
    | cons name more ih =>
      intro place dir target rest
      rw [advance_cons]
      cases hturn : d.turn place name with
      | move next => exact ih next dir target rest
      | link target' => exact absurd hturn h.turn_ne_link
      | missing => cases more <;> simp
      | barred cause => simp
  rw [chase.eq_def, Bool.true_or] at hchase
  cases hadvance : d.advance true place names with
  | found there' =>
    rw [hadvance] at hchase
    obtain ⟨rfl, -⟩ := Goal.found.inj hchase
    rfl
  | vacant dir name => rw [hadvance] at hchase; cases hchase
  | blocked cause => rw [hadvance] at hchase; cases hchase
  | link dir target rest => exact absurd hadvance (hstraight place dir target rest)

theorem named_of_turn (h : d.turn (.named here) name = .move there) :
    ∃ trail, there = .named trail := by
  obtain ⟨entries, hhere⟩ := directory_of_turn (.inl ⟨there, h⟩)
  by_cases hdot : name = Bytes.dot
  · subst hdot
    rw [turn_dot hhere] at h
    exact ⟨here, (Turn.move.inj h).symm⟩
  by_cases hdotDot : name = Bytes.dotDot
  · subst hdotDot
    rw [turn_dotDot hhere] at h
    exact ⟨here.dropLast, (Turn.move.inj h).symm⟩
  · exact ⟨here ++ [name], (entry_of_move hdot hdotDot h).1⟩

/-- A step to something other than a directory is one down, under the name of it. -/
theorem name_of_turn {first : Name} (h : d.turn (.named here) first = .move (.named (trail ++ [name])))
    (hnode : d.node? (.named (trail ++ [name])) = some node) (hleaf : node.isDirectory = false) :
    first = name ∧ name ≠ Bytes.dot ∧ name ≠ Bytes.dotDot ∧ name.length ≤ maxName := by
  obtain ⟨entries, hhere⟩ := directory_of_turn (.inl ⟨_, h⟩)
  have hother : ∀ {there listed}, d.node? (.named there) = some (.directory listed) →
      .named there ≠ Place.named (trail ++ [name]) := by
    intro there listed hthere heq
    rw [heq, hnode] at hthere
    obtain rfl := Option.some.inj hthere
    cases hleaf
  by_cases hdot : first = Bytes.dot
  · subst hdot
    rw [turn_dot hhere] at h
    exact absurd (Turn.move.inj h) (hother hhere)
  by_cases hdotDot : first = Bytes.dotDot
  · subst hdotDot
    rw [turn_dotDot hhere] at h
    obtain ⟨above, habove⟩ := directory_dropLast hhere
    exact absurd (Turn.move.inj h) (hother habove)
  obtain ⟨heq, -⟩ := entry_of_move hdot hdotDot h
  obtain rfl := List.singleton_inj.1 (List.append_inj' (Place.named.inj heq) rfl).2
  rw [turn_of_directory hdot hdotDot hhere] at h
  split at h
  · cases h
  · next hlength => exact ⟨rfl, hdot, hdotDot, Nat.not_lt.1 hlength⟩

/-- A straight walk to something other than a directory ends with the name of it. -/
theorem last_of_advance (h : d.advance true (.named here) names = .found (.named (trail ++ [name])))
    (hne : names ≠ []) (hnode : d.node? (.named (trail ++ [name])) = some node)
    (hleaf : node.isDirectory = false) :
    names.getLast? = some name ∧ name ≠ Bytes.dot ∧ name ≠ Bytes.dotDot ∧
      name.length ≤ maxName := by
  induction names generalizing here with
  | nil => exact absurd rfl hne
  | cons first rest ih =>
    rw [advance_cons] at h
    cases hturn : d.turn (.named here) first with
    | link target => rw [hturn] at h; cases rest <;> simp at h
    | missing => rw [hturn] at h; cases rest <;> simp at h
    | barred cause => rw [hturn] at h; simp at h
    | move next =>
      rw [hturn] at h
      cases rest with
      | nil =>
        obtain rfl := Halt.found.inj ((advance_nil ..).symm.trans h)
        obtain ⟨rfl, hname⟩ := name_of_turn hturn hnode hleaf
        exact ⟨rfl, hname⟩
      | cons second rest =>
        obtain ⟨there, rfl⟩ := named_of_turn hturn
        rw [List.getLast?_cons_cons]
        exact ih h (List.cons_ne_nil _ _)

/-! ### Canonical trails on a grown disk -/

/-- A directory is a directory still. -/
theorem directory_of_keeps {entries : Listing} (h : d'.Keeps d)
    (hnode : d.node? (.named trail) = some (.directory entries)) :
    ∃ entries', d'.node? (.named trail) = some (.directory entries') := by
  obtain ⟨found, hfound, hsight⟩ := h.node? hnode
  exact ⟨found.entries, by rw [hfound, ← Node.eq_directory (Node.isDirectory_of_sight hsight)]⟩

/-- What the builder of a canonical trail found under a name looks the same. -/
theorem Keeps.entry (h : d'.Keeps d) (hentry : d.entry trail name = .ok node) :
    ∃ node', d'.entry trail name = .ok node' ∧ Sight.of (some node') = Sight.of (some node) := by
  obtain ⟨entries, hnode, hlength, hfind⟩ := entry_eq_ok hentry
  have hshort : ¬ maxPath ≤ (Path.ofTrail (trail ++ [name])).bytes.length := by
    intro hlong
    rw [Disk.entry, if_pos hlong] at hentry
    cases hentry
  obtain ⟨entries', hnode'⟩ := directory_of_keeps h hnode
  obtain ⟨node', hfind', hsight⟩ := h.node? ((node?_listed hnode name).trans hfind)
  rw [node?_listed hnode'] at hfind'
  refine ⟨node', ?_, hsight⟩
  rw [Disk.entry, if_neg hshort, hnode']
  simp only [if_neg (Nat.not_lt.2 hlength), hfind']

/-- Under a name that is no link the builder goes on, unless a directory is demanded that is not one
or whose path is too long. -/
theorem straighten_entry (hdot : name ≠ Bytes.dot) (hdotDot : name ≠ Bytes.dotDot)
    (hentry : d.entry trail name = .ok node) (hlink : ∀ target, node ≠ .link target) :
    d.straighten slash trail (name :: rest) =
      if demandsDirectory rest slash then
        if maxPath ≤ (Path.ofTrail (trail ++ [name])).bytes.length + 1 then .blocked .nameTooLong
        else if node.isDirectory then d.straighten slash (trail ++ [name]) rest
        else .blocked .notDirectory
      else d.straighten slash (trail ++ [name]) rest := by
  have hnotLink : ∀ target, d.entry trail name ≠ .ok (.link target) := by
    intro target heq
    rw [hentry] at heq
    exact hlink target (Except.ok.inj heq)
  rw [straighten_cons hdot hdotDot hnotLink, hentry]
  cases demandsDirectory rest slash with
  | false => rfl
  | true =>
    simp only [if_true, checkDirectory]
    by_cases hlong : maxPath ≤ (Path.ofTrail (trail ++ [name])).bytes.length + 1
    · simp only [if_pos hlong]
    · simp only [if_neg hlong]
      cases node.isDirectory <;> rfl

/-- A canonical trail is built as before. -/
theorem Keeps.straighten (h : d'.Keeps d) (slash : Bool) (trail names : List Name)
    (hok : ∀ cause, d.straighten slash trail names ≠ .blocked cause) :
    d'.straighten slash trail names = d.straighten slash trail names := by
  induction names generalizing trail with
  | nil => rw [Disk.straighten, Disk.straighten]
  | cons name rest ih =>
    by_cases hdot : name = Bytes.dot
    · rw [Disk.straighten, if_pos hdot] at hok ⊢
      rw [Disk.straighten, if_pos hdot]
      exact ih trail hok
    by_cases hdotDot : name = Bytes.dotDot
    · rw [Disk.straighten, if_neg hdot, if_pos hdotDot] at hok ⊢
      rw [Disk.straighten, if_neg hdot, if_pos hdotDot]
      exact ih trail.dropLast hok
    cases hentry : d.entry trail name with
    | error cause =>
      obtain ⟨cause', hblocked⟩ := straighten_error hdot hdotDot hentry
      exact absurd hblocked (hok cause')
    | ok node =>
      obtain ⟨node', hentry', hsight⟩ := h.entry hentry
      by_cases hlink : ∃ target, node = .link target
      · obtain ⟨target, rfl⟩ := hlink
        obtain rfl : node' = .link target := by
          cases node' <;> first | (obtain ⟨rfl⟩ := hsight; rfl) | cases hsight
        rw [Disk.straighten, Disk.straighten, if_neg hdot, if_neg hdot, if_neg hdotDot,
          if_neg hdotDot, hentry, hentry']
      · have hnot : ∀ target, node ≠ .link target := fun target heq => hlink ⟨target, heq⟩
        have hnot' : ∀ target, node' ≠ .link target := by
          rintro target rfl
          cases node <;> first | exact hnot _ rfl | cases hsight
        -- both are a directory or neither is, so the same demand stops the builder
        rw [straighten_entry hdot hdotDot hentry hnot] at hok ⊢
        rw [straighten_entry hdot hdotDot hentry' hnot', Node.isDirectory_of_sight hsight]
        split
        · next hdemand =>
          rw [if_pos hdemand] at hok
          split
          · rfl
          next hlong =>
          rw [if_neg hlong] at hok
          split
          · next hdirectory =>
            rw [if_pos hdirectory] at hok
            exact ih _ hok
          · rfl
        · next hdemand =>
          rw [if_neg hdemand] at hok
          exact ih _ hok

theorem Keeps.resolve (h : d'.Keeps d) {found : List Name}
    (hok : d.resolve links trail names slash = .ok found) :
    d'.resolve links trail names slash = .ok found := by
  induction links using Nat.strongRecOn generalizing trail names slash with
  | _ links ih =>
    have hstraight : d'.straighten slash trail names = d.straighten slash trail names := by
      refine h.straighten slash trail names ?_
      intro cause hblocked
      rw [Disk.resolve, hblocked] at hok
      cases hok
    rw [Disk.resolve] at hok ⊢
    rw [hstraight]
    cases hstretch : d.straighten slash trail names with
    | whole there => rw [hstretch] at hok; exact hok
    | blocked cause => rw [hstretch] at hok; cases hok
    | bent there target rest =>
      rw [hstretch] at hok
      cases links with
      | zero => cases hok
      | succ links => exact ih links (Nat.lt_succ_self links) hok

end Disk

namespace World

variable {w w' : World} {p root : Path} {content : Bytes} {text : String} {here : List Name}
  {paths : List Path} {given : Option Path}

/-! ### The same again -/

/-- The root is found where it was found. -/
theorem projectRoot_of_keeps {d : Disk} (hkeeps : d.Keeps w.disk)
    (h : w.projectRoot given = .ok root) : { w with disk := d }.projectRoot given = .ok root := by
  have hcanonical : ∀ p r, w.canonical p = .ok r → { w with disk := d }.canonical p = .ok r := by
    intro p r hp
    unfold canonical at hp ⊢
    split at hp
    · cases hp
    next hnul =>
    split at hp
    · cases hp
    next hempty =>
    rw [if_neg hnul, if_neg hempty]
    cases horigin : Disk.origin p w.cwd with
    | removed above => rw [horigin] at hp; cases hp
    | named start =>
      rw [horigin] at hp
      dsimp only at hp ⊢
      cases hresolve : w.disk.resolve maxLinks start p.steps p.endsInSlash with
      | error cause => rw [hresolve] at hp; cases hp
      | ok trail =>
        rw [hresolve] at hp
        rw [hkeeps.resolve hresolve]
        exact hp
  unfold projectRoot at h ⊢
  split at h
  · cases h
  next path hpath =>
  split at h
  · cases h
  next resolved hresolved =>
  split at h
  · next hdirectory =>
    obtain ⟨rfl⟩ := h
    have hpath' : given.elim { w with disk := d }.currentDirectory
        (fun p => .ok ({ w with disk := d }.expand p)) = .ok path := hpath
    rw [hpath']
    dsimp only
    rw [hcanonical path _ hresolved]
    dsimp only
    rw [if_pos (isDirectory_of_keeps hkeeps hdirectory)]
  · cases h

/-- A file is replaced by itself. -/
theorem writeFile_again (h : w.writeFile p content = .ok w') (hvalid : w'.disk.Valid) :
    w'.writeFile p content = .ok w' := by
  obtain ⟨hrefusal, hwrites⟩ := writes_of_writeFile h
  cases hwrites with
  | device => exact h
  | @file trail name _ into _ reached =>
    have hnode : (w.disk.put trail name (.file content)).node? (.named (trail ++ [name])) =
        some (.file content) := Disk.node?_put into _
    have hsame := Disk.put_self hvalid hnode
    unfold writeFile
    rw [hrefusal]
    unfold destination at reached
    simp only [reached, hnode, overwrite, List.getLast?_concat, List.dropLast_concat]
    rw [hsame]

/-- Only the disk changes, in a way that stops no walk. -/
theorem keeps_writeFile (h : w.writeFile p content = .ok w') :
    w' = { w with disk := w'.disk } ∧ w'.disk.Keeps w.disk := by
  obtain ⟨-, hwrites⟩ := writes_of_writeFile h
  cases hwrites with
  | device => exact ⟨rfl, .refl _⟩
  | file into free _ => exact ⟨rfl, keeps_put_file content into free⟩

/-- A document that was written can be written again, and this changes nothing. -/
theorem writeDocument_again (h : w.writeDocument p text = (w', .ok ())) (hvalid : w'.disk.Valid) :
    w'.writeDocument p text = (w', .ok ()) := by
  obtain ⟨prepared, hprepared, hwritten⟩ := writeDocument_eq_ok h
  obtain ⟨hrest, hkeeps⟩ := keeps_writeFile hwritten
  have hagain : w'.prepareParent p = (w', .ok ()) := by
    rw [hrest]
    exact prepareParent_again hprepared hkeeps
  simp only [writeDocument, hagain, writeFile_again hwritten hvalid]

/-! ### What a written document leaves behind -/

/-- The second world is the first but for what is new: directories, and files with a name that
`named` takes. -/
structure Enlarged (w w' : World) (named : Name → Prop) : Prop where
  rest : w' = { w with disk := w'.disk }
  valid : w'.disk.Valid
  keeps : w'.disk.Keeps w.disk
  same : ∀ trail name node, w'.disk.node? (.named (trail ++ [name])) = some node →
    node.isDirectory = false →
    w.disk.node? (.named (trail ++ [name])) = some node ∨
      named name ∧ ∃ content, node = .file content

/-- On an enlarged disk there are no more links. -/
theorem Enlarged.linkless {named : Name → Prop} (h : w.Enlarged w' named) (hlinks : w.disk.Linkless) :
    w'.disk.Linkless := by
  intro trail target hlink
  rcases List.eq_nil_or_concat' trail with rfl | ⟨front, last, rfl⟩
  · cases hlink
  · rcases h.same front last _ hlink rfl with hold | ⟨-, content, hfile⟩
    · exact hlinks _ _ hold
    · cases hfile

theorem DirectoriesMade.enlarged (h : DirectoriesMade w w' paths) (hvalid : w.disk.Valid)
    (named : Name → Prop) : w.Enlarged w' named := by
  refine ⟨h.rest, h.valid hvalid, h.keeps, ?_⟩
  intro trail name node hnode hleaf
  exact .inl ((h.eq_some_iff hleaf).1 hnode)

/-- Once a file was put, all that is no directory is that file, or what it was. -/
theorem node?_put_file_iff {d : Disk} {trail there : List Name} {name : Name} {entries : Listing}
    {node : Node} (hat : d.node? (.named trail) = some (.directory entries))
    (hover : ∀ old, Listing.find? entries name = some old → ∃ bytes, old = .file bytes)
    (hleaf : node.isDirectory = false) :
    (d.put trail name (.file content)).node? (.named there) = some node ↔
      if there = trail ++ [name] then node = .file content else d.node? (.named there) = some node := by
  split
  · next heq =>
    rw [heq, Disk.node?_put hat, Option.some.injEq]
    exact eq_comm
  · next hne =>
    have hfree : ∀ old, Listing.find? entries name = some old → old.entries = [] := by
      intro old hold
      obtain ⟨bytes, rfl⟩ := hover old hold
      rfl
    refine Node.eq_some_iff_of_bare ?_ hleaf
    rw [Disk.bare_put (.file content) hat hfree rfl, if_neg hne]

theorem linkless_put_file {d : Disk} {trail : List Name} {name : Name} {entries : Listing}
    (hlinks : d.Linkless) (hat : d.node? (.named trail) = some (.directory entries))
    (hover : ∀ old, Listing.find? entries name = some old → ∃ bytes, old = .file bytes) :
    (d.put trail name (.file content)).Linkless := by
  intro there target hlink
  rw [node?_put_file_iff hat hover rfl] at hlink
  split at hlink
  · cases hlink
  · exact hlinks _ _ hlink

/-- Without links the file to which a path leads to be written to has the name that the path is
for. -/
theorem name_of_destination (hlinks : w.disk.Linkless) (hcwd : w.cwd = .named here)
    {listed : Listing} (hhere : w.disk.node? (.named here) = some (.directory listed))
    (hrefusal : p.refusal? = none) {trail : List Name} {name : Name} {node : Node}
    (h : w.destination p = .found (.named (trail ++ [name])) false)
    (hnode : w.disk.node? (.named (trail ++ [name])) = some node) (hleaf : node.isDirectory = false) :
    Name.Valid name ∧ p.fileName? = some name := by
  obtain ⟨start, hstart, entries, hdirectory⟩ : ∃ start, Disk.origin p w.cwd = .named start ∧
      ∃ entries, w.disk.node? (.named start) = some (.directory entries) := by
    rw [hcwd]
    unfold Disk.origin
    split
    · exact ⟨[], rfl, w.disk.entries, rfl⟩
    · exact ⟨here, rfl, listed, hhere⟩
  obtain ⟨-, hchase⟩ := ((Disk.approach_iff ..).1 _ _).1 h
  have hadvance := hlinks.advance_of_chase hchase
  rw [hstart] at hadvance
  have hne : p.steps ≠ [] := by
    intro hnil
    rw [hnil, Disk.advance_nil] at hadvance
    rw [Halt.found.inj hadvance, hnode] at hdirectory
    obtain rfl := Option.some.inj hdirectory
    cases hleaf
  obtain ⟨hlast, hdot, hdotDot, hlength⟩ := Disk.last_of_advance hadvance hne hnode hleaf
  obtain ⟨hnonempty, hslash, hbytes⟩ := Path.mem_steps (List.mem_of_getLast? hlast)
  have hnul : (0 : UInt8) ∉ name := by
    intro hzero
    exact (refusal?_eq_none_iff.1 hrefusal).1 (hbytes 0 hzero)
  exact ⟨⟨hnonempty, hdot, hdotDot, hslash, hnul, hlength⟩,
    Path.fileName?_of_steps hlast hdot hdotDot⟩

/-- A file is put under the name that its path is for. -/
theorem enlarged_writeFile (hw : w.Valid) (hcwd : w.cwd = .named here) (hlinks : w.disk.Linkless)
    (h : w.writeFile p content = .ok w') : w.Enlarged w' fun name => p.fileName? = some name := by
  obtain ⟨hrefusal, hwrites⟩ := writes_of_writeFile h
  cases hwrites with
  | device => exact ⟨rfl, hw.disk, .refl _, fun _ _ _ hnode _ => .inl hnode⟩
  | @file trail name entries into free reached =>
    have hkeeps := keeps_put_file content into free
    have hlinkless : (w.disk.put trail name (.file content)).Linkless :=
      linkless_put_file hlinks into free
    obtain ⟨listed, hhere⟩ := hw.cwd
    rw [hcwd] at hhere
    obtain ⟨listed', hhere'⟩ := Disk.directory_of_keeps hkeeps hhere
    obtain ⟨hname, hfile⟩ := name_of_destination
      (w := { w with disk := w.disk.put trail name (.file content) }) hlinkless hcwd hhere' hrefusal
      reached (Disk.node?_put into _) rfl
    refine ⟨rfl, hw.disk.put hname (Node.valid_of_not_directory rfl), hkeeps, ?_⟩
    intro there last node hnode hleaf
    rw [node?_put_file_iff into free hleaf] at hnode
    split at hnode
    · next heq =>
      obtain rfl := List.singleton_inj.1 (List.append_inj' heq rfl).2
      exact .inr ⟨hfile, content, hnode⟩
    · exact .inl hnode

/-- A document is written under the name that its path is for, and all else that is new are
directories. -/
theorem enlarged_writeDocument (hw : w.Valid) (hcwd : w.cwd = .named here)
    (hlinks : w.disk.Linkless) (h : w.writeDocument p text = (w', .ok ())) :
    w.Enlarged w' fun name => p.fileName? = some name := by
  obtain ⟨prepared, hprepared, hwritten⟩ := writeDocument_eq_ok h
  have hmade : DirectoriesMade w prepared (parents p) := by
    have hprepares := w.directoriesMade_prepareParent p
    rwa [hprepared] at hprepares
  have hprepare := hmade.enlarged hw.disk fun name => p.fileName? = some name
  have hcwd' : prepared.cwd = .named here := by
    rw [hmade.rest]
    exact hcwd
  have hvalid : prepared.Valid := by
    refine ⟨hprepare.valid, ?_⟩
    obtain ⟨entries, hentries⟩ := hw.cwd
    rw [hcwd] at hentries
    rw [hcwd']
    exact Disk.directory_of_keeps hmade.keeps hentries
  have hwrite := enlarged_writeFile hvalid hcwd' (hprepare.linkless hlinks) hwritten
  refine ⟨?_, hwrite.valid, hwrite.keeps.trans hprepare.keeps, ?_⟩
  · rw [hwrite.rest, hprepare.rest]
  · intro trail name node hnode hleaf
    rcases hwrite.same trail name node hnode hleaf with hold | hnew
    · exact hprepare.same trail name node hold hleaf
    · exact .inr hnew

end World

end SourceBundle
