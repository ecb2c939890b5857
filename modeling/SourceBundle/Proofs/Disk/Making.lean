import SourceBundle.Project
import SourceBundle.Proofs.Disk.Growth
import SourceBundle.Proofs.Disk.Lookup
import SourceBundle.Proofs.Path.Steps

/-!
Making directories. One directory is made where its path leads and nothing stands, and then its path
leads to it. A chain of directories is made step by step, so whatever becomes of the chain, all that
stood before stands still, and all that is new are directories that the paths of the chain lead to.
Once the chain is made, making it again changes nothing.
-/

namespace SourceBundle

namespace Node

theorem isDirectory_of_sight {a b : Node} (h : Sight.of (some a) = Sight.of (some b)) :
    a.isDirectory = b.isDirectory := by
  cases a <;> cases b <;> first | rfl | cases h

theorem sight_of_bare {a b : Node} (h : a.bare = b.bare) :
    Sight.of (some a) = Sight.of (some b) := by
  cases a <;> cases b <;> simp_all [bare, Sight.of]

end Node

namespace Disk

variable {d : Disk} {place dir : Place} {names rest : List Name} {name last : Name} {target : Path}
  {links : Nat} {s : Bool}

/-! ### The name that is missed -/

/-- A straight walk that does not follow a last link stops only at links that more names follow. -/
theorem getLast?_of_link (h : d.advance false place names = .link dir target rest) :
    ∃ last, rest.getLast? = some last ∧ names.getLast? = some last := by
  induction names generalizing place with
  | nil => rw [advance_nil] at h; cases h
  | cons name more ih =>
    rw [advance_cons] at h
    cases hturn : d.turn place name with
    | move there =>
      rw [hturn] at h
      obtain ⟨last, hrest, hmore⟩ := ih h
      exact ⟨last, hrest, by rw [List.getLast?_cons, hmore]; rfl⟩
    | link target' =>
      rw [hturn] at h
      cases more with
      | nil => cases h
      | cons next more =>
        obtain ⟨-, -, rfl⟩ := Halt.link.inj h
        exact ⟨_, List.getLast?_eq_some_getLast (List.cons_ne_nil next more), by
          rw [List.getLast?_cons_cons, List.getLast?_eq_some_getLast (List.cons_ne_nil next more)]⟩
    | missing =>
      rw [hturn] at h
      dsimp only at h
      split at h <;> cases h
    | barred cause => rw [hturn] at h; cases h

/-- A walk that does not follow a last link misses the last of its own names, whatever links are on
the way. -/
theorem getLast?_of_vacant (h : d.chase false links place names false = .vacant dir last s) :
    names.getLast? = some last := by
  induction links using Nat.strongRecOn generalizing place names with
  | _ links ih =>
    rw [chase.eq_def, Bool.or_false] at h
    cases hadvance : d.advance false place names with
    | found there => rw [hadvance] at h; cases h
    | blocked cause => rw [hadvance] at h; cases h
    | vacant dir' last' =>
      rw [hadvance] at h
      obtain ⟨-, rfl, -⟩ := Goal.vacant.inj h
      exact (((Leads.refl d).advance false place names).2.2 _ _ hadvance).2.1
    | link dir' target rest =>
      rw [hadvance] at h
      cases links with
      | zero => cases h
      | succ links =>
        obtain ⟨own, hrest, hnames⟩ := getLast?_of_link hadvance
        have hne : rest.isEmpty = false := by
          cases rest with
          | nil => cases hrest
          | cons => rfl
        simp only [hne, Bool.false_and, Bool.or_false] at h
        have hlast := ih links (Nat.lt_succ_self links) h
        rw [List.getLast?_append, hrest] at hlast
        rw [hnames]
        exact hlast

end Disk

namespace World

variable {w w' w'' : World} {p : Path} {paths more : List Path} {place : Place} {node : Node}

/-! ### Questions asked again -/

/-- On a disk that keeps what was seen a path leads where it led, to what looks the same. -/
theorem follow_of_keeps {d : Disk} (hkeeps : d.Keeps w.disk) (h : w.follow p = .ok (place, node)) :
    ∃ node', { w with disk := d }.follow p = .ok (place, node') ∧ d.node? place = some node' ∧
      node'.isDirectory = node.isDirectory := by
  obtain ⟨hrefusal, slash, hlocate, hnode, hslash⟩ := follow_eq_ok_iff.1 h
  obtain ⟨node', hnode', hsight⟩ : ∃ node', d.node? place = some node' ∧
      Sight.of (some node') = Sight.of (some node) := by
    cases place with
    | removed above =>
      obtain ⟨rfl⟩ := hnode
      exact ⟨.directory [], rfl, rfl⟩
    | named trail => exact hkeeps.node? hnode
  have hdirectory := Node.isDirectory_of_sight hsight
  have hlocate' : { w with disk := d }.locate true p = .found place slash :=
    (hkeeps.leads.chase ..).1 _ _ hlocate
  refine ⟨node', ?_, hnode', hdirectory⟩
  refine follow_eq_ok_iff.2 ⟨hrefusal, slash, hlocate', hnode', ?_⟩
  intro hdemand
  rw [hdirectory]
  exact hslash hdemand

theorem isDirectory_of_keeps {d : Disk} (hkeeps : d.Keeps w.disk) (h : w.isDirectory p = true) :
    { w with disk := d }.isDirectory p = true := by
  obtain ⟨place, entries, hfollow⟩ := isDirectory_iff.1 h
  obtain ⟨node, hfollow', -, hdirectory⟩ := follow_of_keeps hkeeps hfollow
  exact isDirectory_iff.2 ⟨place, node.entries, by rw [hfollow', ← Node.eq_directory hdirectory]⟩

/-! ### What making directories leaves behind -/

/-- The second world is the first but for new directories, and the paths lead to these. -/
structure DirectoriesMade (w w' : World) (paths : List Path) : Prop where
  /-- Only the disk changes. -/
  rest : w' = { w with disk := w'.disk }
  valid : w.disk.Valid → w'.disk.Valid
  /-- What stood stands still; only directories may list more. -/
  kept : ∀ trail node, w.disk.node? (.named trail) = some node →
    ∃ node', w'.disk.node? (.named trail) = some node' ∧ node'.bare = node.bare
  /-- What is new is a directory to which one of the paths leads. -/
  made : ∀ trail node, w.disk.node? (.named trail) = none →
    w'.disk.node? (.named trail) = some node →
    node.isDirectory = true ∧ ∃ q ∈ paths, w'.follow q = .ok (.named trail, node)

theorem DirectoriesMade.refl (w : World) (paths : List Path) : DirectoriesMade w w paths := by
  refine ⟨rfl, id, fun _ node hnode => ⟨node, hnode, rfl⟩, ?_⟩
  intro trail node hnone hsome
  rw [hnone] at hsome
  cases hsome

theorem DirectoriesMade.keeps (h : DirectoriesMade w w' paths) : w'.disk.Keeps w.disk := by
  intro trail hseen
  cases hnode : w.disk.node? (.named trail) with
  | none => rw [hnode] at hseen; exact absurd rfl hseen
  | some node =>
    obtain ⟨node', hnode', hbare⟩ := h.kept trail node hnode
    rw [hnode']
    exact Node.sight_of_bare hbare

/-- Where directories are made, all that is none is what it was. -/
theorem DirectoriesMade.eq_some_iff (h : DirectoriesMade w w' paths) {trail : List Name}
    (hleaf : node.isDirectory = false) :
    w'.disk.node? (.named trail) = some node ↔ w.disk.node? (.named trail) = some node := by
  cases hold : w.disk.node? (.named trail) with
  | none =>
    refine iff_of_false ?_ (by simp)
    intro hnode
    obtain ⟨hdirectory, -⟩ := h.made _ _ hold hnode
    rw [hdirectory] at hleaf
    cases hleaf
  | some old =>
    obtain ⟨found, hfound, hbare⟩ := h.kept _ _ hold
    refine Node.eq_some_iff_of_bare ?_ hleaf
    rw [hfound, Option.map_some, Option.map_some, hbare]

theorem DirectoriesMade.of_subset (h : DirectoriesMade w w' paths) (hsubset : paths ⊆ more) :
    DirectoriesMade w w' more := by
  refine ⟨h.rest, h.valid, h.kept, ?_⟩
  intro trail node hnone hsome
  obtain ⟨hdirectory, q, hq, hfollow⟩ := h.made trail node hnone hsome
  exact ⟨hdirectory, q, hsubset hq, hfollow⟩

/-- What is asked after directories were made is answered as before. -/
theorem DirectoriesMade.follow (h : DirectoriesMade w w' paths)
    (hfollow : w.follow p = .ok (place, node)) :
    ∃ node', w'.follow p = .ok (place, node') ∧ w'.disk.node? place = some node' ∧
      node'.isDirectory = node.isDirectory := by
  rw [h.rest]
  exact follow_of_keeps h.keeps hfollow

theorem DirectoriesMade.trans (h : DirectoriesMade w w' paths)
    (h' : DirectoriesMade w' w'' paths) : DirectoriesMade w w'' paths := by
  refine ⟨?_, fun hvalid => h'.valid (h.valid hvalid), ?_, ?_⟩
  · rw [h'.rest, h.rest]
  · intro trail node hnode
    obtain ⟨node', hnode', hbare⟩ := h.kept trail node hnode
    obtain ⟨node'', hnode'', hbare'⟩ := h'.kept trail node' hnode'
    exact ⟨node'', hnode'', hbare'.trans hbare⟩
  · intro trail node hnone hsome
    cases hmid : w'.disk.node? (.named trail) with
    | none => exact h'.made trail node hmid hsome
    | some node' =>
      -- made by the first, and the path that leads to it still does
      obtain ⟨hdirectory, q, hq, hfollow⟩ := h.made trail node' hnone hmid
      obtain ⟨found, hfound, hat, hdirectory'⟩ := h'.follow hfollow
      obtain rfl : found = node := by
        rw [hat] at hsome
        exact Option.some.inj hsome
      exact ⟨hdirectory'.trans hdirectory, q, hq, hfound⟩

/-! ### One directory -/

/-- A directory is made under the last name of its path, in a directory that has no such entry, and
from then on its path leads to it. -/
theorem makeDirectory_eq_ok (h : w.makeDirectory p = .ok w') :
    ∃ trail name entries, w' = { w with disk := w.disk.put trail name (.directory []) } ∧
      w.disk.node? (.named trail) = some (.directory entries) ∧
      Listing.find? entries name = none ∧ Name.Valid name ∧
      w'.follow p = .ok (.named (trail ++ [name]), .directory []) := by
  unfold makeDirectory createNode at h
  cases hrefusal : p.refusal? with
  | some cause => simp [hrefusal] at h
  | none =>
    simp only [hrefusal] at h
    split at h
    · cases h
    · cases h
    next dir name s hchase =>
    cases dir with
    | removed above => cases h
    | named trail =>
      obtain ⟨rfl⟩ := h
      -- what is missed is no link, so the walk that follows a last link misses it too
      have hchase' : w.disk.chase true maxLinks (Disk.origin p w.cwd) p.steps false =
          .vacant (.named trail) name s := by
        rcases w.disk.chase_false maxLinks (Disk.origin p w.cwd) p.steps false with
          heq | ⟨-, _, _, -, hfound⟩
        · rw [← heq]
          exact hchase
        · rw [hfound] at hchase
          cases hchase
      obtain ⟨hmissing, -⟩ := ((Disk.Leads.refl w.disk).chase ..).2 _ _ _ hchase'
      obtain ⟨entries, hat, hfind, hdot, hdotDot, hlength⟩ := Disk.find?_of_turn_missing hmissing
      obtain ⟨hne, hslash, hbytes⟩ :=
        Path.mem_steps (List.mem_of_getLast? (Disk.getLast?_of_vacant hchase))
      have hnul : (0 : UInt8) ∉ name := by
        intro hzero
        exact (refusal?_eq_none_iff.1 hrefusal).1 (hbytes 0 hzero)
      have hkeeps : (w.disk.put trail name (.directory [])).Keeps w.disk :=
        Disk.keeps_put hat (by simp [hfind]) rfl
      have hthere := (hkeeps.leads.chase ..).2 _ _ _ hchase'
      obtain ⟨slash, hslash'⟩ := Disk.chase_any_slash
        (hthere.2 _ (Disk.turn_put hmissing rfl (by simp))) p.endsInSlash
      exact ⟨trail, name, entries, rfl, hat, hfind, ⟨hne, hdot, hdotDot, hslash, hnul, hlength⟩,
        follow_eq_ok_iff.2 ⟨hrefusal, slash, hslash', Disk.node?_put hat _, fun _ => rfl⟩⟩

/-- A directory is made where nothing stood, and nothing else changes. -/
theorem directoriesMade_makeDirectory (h : w.makeDirectory p = .ok w') :
    DirectoriesMade w w' [p] ∧ w'.isDirectory p = true := by
  obtain ⟨trail, name, entries, rfl, hat, hfind, hname, hfollow⟩ := makeDirectory_eq_ok h
  have hfree : ∀ old, Listing.find? entries name = some old → old.entries = [] := by simp [hfind]
  have hbare := Disk.bare_put (.directory []) hat hfree rfl
  have hvacant : w.disk.node? (.named (trail ++ [name])) = none := by
    rw [Disk.node?_listed hat, hfind]
  refine ⟨⟨rfl, ?_, ?_, ?_⟩, isDirectory_iff.2 ⟨_, _, hfollow⟩⟩
  · intro hvalid
    exact hvalid.put hname (Node.valid_directory_iff.2 ⟨by decide, by simp⟩)
  · intro there node hnode
    have hthere := hbare there
    rw [if_neg (by rintro rfl; rw [hvacant] at hnode; cases hnode), hnode] at hthere
    exact Option.map_eq_some_iff.1 hthere
  · intro there node hnone hsome
    by_cases heq : there = trail ++ [name]
    · subst heq
      obtain rfl : .directory [] = node := by
        rw [Disk.node?_put hat] at hsome
        exact Option.some.inj hsome
      exact ⟨rfl, p, List.mem_singleton.2 rfl, hfollow⟩
    · have hthere := hbare there
      rw [if_neg heq, hnone, hsome] at hthere
      cases hthere

/-- A directory that is there is left as it is. -/
theorem ensureDirectory_of_isDirectory (h : w.isDirectory p = true) :
    w.ensureDirectory p = .ok w := by
  obtain ⟨place, entries, hfollow⟩ := isDirectory_iff.1 h
  obtain ⟨hrefusal, slash, hlocate, -, -⟩ := follow_eq_ok_iff.1 hfollow
  obtain ⟨there, slash', hfound⟩ : ∃ there slash',
      w.disk.chase false maxLinks (Disk.origin p w.cwd) p.steps false = .found there slash' := by
    rcases w.disk.chase_false maxLinks (Disk.origin p w.cwd) p.steps false with
      heq | ⟨-, there, _, -, hfound⟩
    · obtain ⟨slash', hslash⟩ := Disk.chase_any_slash hlocate false
      exact ⟨place, slash', heq.trans hslash⟩
    · exact ⟨there, false, hfound⟩
  have hmake : w.makeDirectory p = .error (.os .alreadyExists) := by
    unfold makeDirectory createNode
    rw [hrefusal]
    simp only [hfound]
  unfold ensureDirectory
  rw [hmake]
  exact if_pos ⟨rfl, h⟩

/-- After it was ensured, a directory is there. -/
theorem directoriesMade_ensureDirectory (h : w.ensureDirectory p = .ok w') :
    DirectoriesMade w w' [p] ∧ w'.isDirectory p = true := by
  unfold ensureDirectory at h
  split at h
  · next made hmake =>
    obtain ⟨rfl⟩ := h
    exact directoriesMade_makeDirectory hmake
  · split at h
    · next hexists =>
      obtain ⟨rfl⟩ := h
      exact ⟨.refl _ _, hexists.2⟩
    · cases h

/-! ### A chain of directories -/

/-- Whatever becomes of a chain of directories, nothing but directories of the chain is made. -/
theorem directoriesMade_ensureChain (w : World) (paths : List Path) :
    DirectoriesMade w (w.ensureChain paths).1 paths := by
  induction paths generalizing w with
  | nil => exact .refl w []
  | cons p above ih =>
    have hhead : [p] ⊆ p :: above := by simp
    have htail := (ih w).of_subset (List.subset_cons_self p above)
    unfold ensureChain
    split
    · exact .refl _ _
    split
    · next w' hmade => exact (directoriesMade_ensureDirectory hmade).1.of_subset hhead
    split
    · split
      · next w' cause habove => rw [habove] at htail; exact htail
      · next w' habove =>
        rw [habove] at htail
        split
        · next w'' hmade =>
          exact htail.trans ((directoriesMade_ensureDirectory hmade).1.of_subset hhead)
        · exact htail
    · exact .refl _ _

/-- A chain that was made ends at a directory. -/
theorem isDirectory_of_ensureChain {above : List Path} (hne : p.isEmpty = false)
    (h : w.ensureChain (p :: above) = (w', .ok ())) : w'.isDirectory p = true := by
  unfold ensureChain at h
  rw [if_neg (by simp [hne])] at h
  split at h
  · next made hmade =>
    obtain ⟨rfl, -⟩ := Prod.mk.inj h
    exact (directoriesMade_ensureDirectory hmade).2
  split at h
  · split at h
    · cases h
    · split at h
      · next made hmade =>
        obtain ⟨rfl, -⟩ := Prod.mk.inj h
        exact (directoriesMade_ensureDirectory hmade).2
      · cases h
  · cases h

/-- A chain that ends at a directory is left as it is. -/
theorem ensureChain_of_isDirectory {above : List Path} (h : w.isDirectory p = true) :
    w.ensureChain (p :: above) = (w, .ok ()) := by
  unfold ensureChain
  split
  · rfl
  · rw [ensureDirectory_of_isDirectory h]

/-! ### The directories above a file -/

/-- The directories that are made before a file is written. -/
def parents (p : Path) : List Path := p.parent?.elim [] Path.ancestors

/-- Preparing for a file makes nothing but directories above it. -/
theorem directoriesMade_prepareParent (w : World) (p : Path) :
    DirectoriesMade w (w.prepareParent p).1 (parents p) := by
  unfold prepareParent parents
  cases p.parent? with
  | none => exact .refl _ _
  | some parent =>
    have hchain := w.directoriesMade_ensureChain parent.ancestors
    dsimp only [Option.elim_some]
    split
    · exact .refl _ _
    unfold ensureDirectories
    split
    · next w' heq => rw [heq] at hchain; exact hchain
    · next w' cause heq => rw [heq] at hchain; exact hchain

/-- What was prepared once is not prepared again. -/
theorem prepareParent_again {d : Disk} (h : w.prepareParent p = (w', .ok ()))
    (hkeeps : d.Keeps w'.disk) :
    { w' with disk := d }.prepareParent p = ({ w' with disk := d }, .ok ()) := by
  unfold prepareParent at h ⊢
  cases hparent : p.parent? with
  | none => rfl
  | some parent =>
    simp only [hparent] at h ⊢
    cases hempty : parent.isEmpty with
    | true => rfl
    | false =>
      simp only [hempty, Bool.false_eq_true, if_false] at h ⊢
      obtain ⟨above, hancestors⟩ : ∃ above, parent.ancestors = parent :: above :=
        List.head?_eq_some_iff.1 parent.head?_ancestors
      unfold ensureDirectories at h ⊢
      rw [hancestors] at h ⊢
      split at h
      · next made hmade =>
        obtain ⟨rfl, -⟩ := Prod.mk.inj h
        rw [ensureChain_of_isDirectory
          (isDirectory_of_keeps hkeeps (isDirectory_of_ensureChain hempty hmade))]
      · cases h

end World

end SourceBundle
