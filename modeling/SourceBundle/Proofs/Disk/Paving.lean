import SourceBundle.Proofs.Disk.Placing
import SourceBundle.Proofs.Disk.Resolving
import SourceBundle.Proofs.Disk.Rewriting
import SourceBundle.Proofs.Path.Parents

/-!
Paving the way to a path on a disk without links. A walk that names alone lead is told by what stands on
its way: whether all of it is directories, and where it ends. So is what becomes of a directory that is
to be made with those that are missing above it: either it is there, or the way is clear and it is placed
with them, or something is in the way and nothing changes.
-/

namespace SourceBundle

namespace Disk

variable {d : Disk} {start dir front : List Name} {last : Name} {entries : Listing}

/-! ### The way to a place -/

/-- Whether all that stands at a place and above it is a directory. -/
def Clear (d : Disk) (dir : List Name) : Prop :=
  ∀ front, front <+: dir → ∀ node, d.node? (.named front) = some node → node.isDirectory = true

theorem clear_of_directory (h : d.node? (.named dir) = some (.directory entries)) :
    d.Clear dir := by
  rintro front ⟨back, rfl⟩ node hnode
  obtain ⟨above, habove⟩ := directory_of_append h
  rw [hnode] at habove
  obtain ⟨rfl⟩ := habove
  rfl

theorem Clear.of_append {back : List Name} (h : d.Clear (dir ++ back)) : d.Clear dir :=
  fun front hfront => h front (hfront.trans (List.prefix_append _ _))

/-- Where nothing stands, nothing further bars the way. -/
theorem Clear.append (h : d.Clear dir) (hnone : d.node? (.named dir) = none) (back : List Name) :
    d.Clear (dir ++ back) := by
  intro front hfront node hnode
  by_cases hlong : dir <+: front
  · obtain ⟨rest, rfl⟩ := hlong
    rw [node?_append_of_none hnone] at hnode
    cases hnode
  · exact h front ((List.prefix_or_prefix_of_prefix hfront (List.prefix_append _ _)).resolve_right hlong)
      node hnode

theorem Clear.concat {name : Name} (h : d.Clear dir)
    (hnone : d.node? (.named (dir ++ [name])) = none) : d.Clear (dir ++ [name]) := by
  intro front hfront node hnode
  rcases List.prefix_concat_iff.1 hfront with rfl | hfront
  · rw [hnone] at hnode
    cases hnode
  · exact h front hfront node hnode

/-- How a walk ends that only names lead, told by what stands on its way. -/
inductive Comes (d : Disk) (dir : List Name) (last : Name) : Goal → Prop
  | standing {node : Node} (stands : d.node? (.named (dir ++ [last])) = some node) :
      Comes d dir last (.found (.named (dir ++ [last])) false)
  | free {entries : Listing} (into : d.node? (.named dir) = some (.directory entries))
      (unlisted : Listing.find? entries last = none) :
      Comes d dir last (.vacant (.named dir) last false)
  | missing (absent : d.node? (.named dir) = none) (clear : d.Clear dir) :
      Comes d dir last (.blocked .noEntry)
  | barred (barred : ¬ d.Clear dir) : Comes d dir last (.blocked .notDirectory)

/-- Without links a walk goes on from a directory where anything stands under the name. -/
theorem Linkless.turn_of_node? (h : d.Linkless) {name : Name} {child : Node}
    (hdir : d.node? (.named dir) = some (.directory entries)) (hname : Name.Valid name)
    (hchild : d.node? (.named (dir ++ [name])) = some child) :
    d.turn (.named dir) name = .move (.named (dir ++ [name])) := by
  rw [node?_listed hdir] at hchild
  rw [turn_of_find? hdir hname hchild]
  cases child with
  | link target => exact absurd ((node?_listed hdir name).trans hchild) (h _ target)
  | _ => rfl

/-- Without links it is all one whether a last link is followed. -/
theorem Linkless.chase_false (h : d.Linkless) (links : Nat) (place : Place) (names : List Name)
    (slash : Bool) :
    d.chase false links place names slash = d.chase true links place names slash := by
  rcases d.chase_false links place names slash with heq | ⟨-, there, target, hlink, -⟩
  · exact heq
  · cases there with
    | named trail => exact absurd hlink (h trail target)
    | removed above => cases hlink

/-- Where nothing stands under the name, the walk misses it. -/
theorem turn_of_none {name : Name} (hdir : d.node? (.named dir) = some (.directory entries))
    (hname : Name.Valid name) (hnone : Listing.find? entries name = none) :
    d.turn (.named dir) name = .missing := by
  rw [turn_of_directory hname.ne_dot hname.ne_dotDot hdir,
    if_neg (Nat.not_lt.2 hname.length_le), hnone]

/-- Below what is no directory no name is looked up. -/
theorem advance_of_leaf {place : Place} {node : Node} {names : List Name}
    (hnode : d.node? place = some node) (hleaf : node.isDirectory = false) (hne : names ≠ [])
    (followLast : Bool) : d.advance followLast place names = .blocked .notDirectory := by
  obtain ⟨name, rest, rfl⟩ := List.exists_cons_of_ne_nil hne
  rw [advance, hnode]
  cases node with
  | directory entries => cases hleaf
  | _ => rfl

/-- Without links a walk that names lead ends in one of these ways. -/
theorem Linkless.comes (h : d.Linkless)
    (hstart : d.node? (.named start) = some (.directory entries))
    (hnames : ∀ name ∈ front ++ [last], Name.Valid name) (followLast : Bool) (links : Nat) :
    d.Comes (start ++ front) last
      (d.chase followLast links (.named start) (front ++ [last]) false) := by
  induction front generalizing start entries with
  | nil =>
    have hlast := hnames last (by simp)
    rw [List.append_nil, List.nil_append]
    cases hfind : Listing.find? entries last with
    | none =>
      rw [chase.eq_def, advance_cons, turn_of_none hstart hlast hfind]
      exact .free hstart hfind
    | some child =>
      have hchild := (node?_listed hstart last).trans hfind
      rw [chase_move (h.turn_of_node? hstart hlast hchild), chase.eq_def, advance_nil]
      exact .standing hchild
  | cons name front ih =>
    obtain ⟨hname, hrest⟩ := List.forall_mem_cons.1 hnames
    have happend : start ++ name :: front = start ++ [name] ++ front := by simp
    rw [List.cons_append, happend]
    cases hfind : Listing.find? entries name with
    | none =>
      have hnone := (node?_listed hstart name).trans hfind
      have hclear : d.Clear (start ++ [name]) := (clear_of_directory hstart).concat hnone
      rw [chase.eq_def, advance_cons, turn_of_none hstart hname hfind]
      have hmore : (front ++ [last]).isEmpty = false := by simp
      simp only [hmore, Bool.false_eq_true, if_false]
      exact .missing (node?_append_of_none hnone front) (hclear.append hnone front)
    | some child =>
      have hchild := (node?_listed hstart name).trans hfind
      rw [chase_move (h.turn_of_node? hstart hname hchild)]
      cases hdirectory : child.isDirectory with
      | true =>
        rw [Node.eq_directory hdirectory] at hchild
        exact ih hchild hrest
      | false =>
        rw [chase.eq_def, advance_of_leaf hchild hdirectory (by simp)]
        refine .barred fun hclear => ?_
        rw [hclear.of_append _ (List.prefix_refl _) _ hchild] at hdirectory
        cases hdirectory

/-- A place below which nothing stands yet keeps a disk free of links. -/
theorem Placed.linkless {d' : Disk} (h : d.Placed d' dir (.directory [])) (hlinks : d.Linkless) :
    d'.Linkless := by
  intro other target hlink
  by_cases habove : other <+: dir
  · obtain ⟨back, rfl⟩ := habove
    obtain ⟨above, hdirectory⟩ := directory_of_append h.placed
    rw [hlink] at hdirectory
    cases hdirectory
  · by_cases hbelow : dir <+: other
    · obtain ⟨rest, rfl⟩ := hbelow
      cases rest with
      | nil => exact absurd (by simp) habove
      | cons name rest =>
        rw [node?_append_cons, listed_of_node? h.placed] at hlink
        cases hlink
    · rw [h.beside other habove hbelow] at hlink
      exact hlinks other target hlink

end Disk

/-! ### Paths within the limits -/

namespace Path

variable {p above : Path}

/-- A path of names alone that keeps to the limits of the system on lengths. A NUL may be in it. -/
structure Fits (p : Path) : Prop where
  plain : p.Plain
  length_lt : p.bytes.length < maxPath
  names_le : ∀ name ∈ p.steps, name.length ≤ maxName

theorem Above.fits (h : above.Above p) (hp : p.Fits) : above.Fits := by
  refine ⟨h.plain, Nat.lt_trans h.shorter hp.length_lt, ?_⟩
  intro name hname
  rw [h.steps] at hname
  exact hp.names_le name (List.dropLast_subset _ hname)

theorem Above.nul_notMem (h : above.Above p) (hnul : (0 : UInt8) ∉ p.bytes) :
    (0 : UInt8) ∉ above.bytes :=
  fun hmem => hnul (h.before.subset hmem)

/-- Without a NUL its names are such as a directory can hold. -/
theorem Fits.valid (h : p.Fits) (hnul : (0 : UInt8) ∉ p.bytes) :
    ∀ name ∈ p.steps, Name.Valid name := by
  intro name hname
  obtain ⟨hne, hdot, hdotDot, hslash⟩ := h.plain.normal name hname
  obtain ⟨-, -, hbytes⟩ := mem_steps hname
  exact ⟨hne, hdot, hdotDot, hslash, fun hzero => hnul (hbytes 0 hzero), h.names_le name hname⟩

theorem Fits.refusal? (h : p.Fits) (hnul : (0 : UInt8) ∉ p.bytes) (hempty : p.isEmpty = false) :
    p.refusal? = none :=
  World.refusal?_eq_none_iff.2 ⟨hnul, hempty, h.length_lt⟩

end Path

namespace World

variable {w : World} {p q : Path} {start front dir : List Name} {last : Name} {entries : Listing}

/-! ### Making directories -/

theorem isDirectory_of_locate {place : Place} {node : Node} (hrefusal : q.refusal? = none)
    (hlocate : w.locate true q = .found place false) (hnode : w.disk.node? place = some node) :
    w.isDirectory q = node.isDirectory := by
  simp [isDirectory, follow, hrefusal, hlocate, settle, hnode]

/-- What becomes of a directory that is to be made under a name, told by what stands on the way. -/
inductive Ensures (w : World) (dir : List Name) (last : Name) : Except IoError World → Prop
  | standing {entries : Listing}
      (stands : w.disk.node? (.named (dir ++ [last])) = some (.directory entries)) :
      Ensures w dir last (.ok w)
  | made {entries : Listing} (into : w.disk.node? (.named dir) = some (.directory entries))
      (unlisted : Listing.find? entries last = none) :
      Ensures w dir last (.ok { w with disk := w.disk.put dir last (.directory []) })
  | missing (absent : w.disk.node? (.named dir) = none) (clear : w.disk.Clear dir) :
      Ensures w dir last (.error (.os .noEntry))
  | barred {cause : IoError} (barred : ¬ w.disk.Clear (dir ++ [last]))
      (other : cause ≠ .os .noEntry) : Ensures w dir last (.error cause)

theorem ensures_ensureDirectory (hlinks : w.disk.Linkless) (hq : q.Fits)
    (hnul : (0 : UInt8) ∉ q.bytes) (hsteps : q.steps = front ++ [last])
    (horigin : Disk.origin q w.cwd = .named start)
    (hstart : w.disk.node? (.named start) = some (.directory entries)) :
    w.Ensures (start ++ front) last (w.ensureDirectory q) := by
  have hne : q.steps ≠ [] := by simp [hsteps]
  have hslash := hq.plain.endsInSlash_of_steps_ne_nil hne
  have hrefusal := hq.refusal? hnul (Path.isEmpty_of_steps_ne_nil hne)
  have hcomes := hlinks.comes hstart (by rw [← hsteps]; exact hq.valid hnul) true maxLinks
  rw [← hsteps, ← horigin] at hcomes
  unfold ensureDirectory makeDirectory createNode
  -- the walk that makes does not follow a last link, the one that looks does: without links they agree
  rw [hrefusal, hlinks.chase_false]
  generalize hgoal : w.disk.chase true maxLinks (Disk.origin q w.cwd) q.steps false = goal at hcomes
  cases hcomes with
  | @standing node stands =>
    have hlocate : w.locate true q = .found (.named (start ++ front ++ [last])) false := by
      rw [locate, hslash, hgoal]
    simp only [isDirectory_of_locate hrefusal hlocate stands]
    cases hdirectory : node.isDirectory with
    | true =>
      rw [Node.eq_directory hdirectory] at stands
      exact .standing stands
    | false =>
      refine .barred (fun hclear => ?_) (by decide)
      rw [hclear _ (List.prefix_refl _) _ stands] at hdirectory
      cases hdirectory
  | free into unlisted => exact .made into unlisted
  | missing absent clear => exact .missing absent clear
  | barred barred => exact .barred (fun h => barred h.of_append) (by decide)

/-- What becomes of a directory that is to be made with all that are missing above it. -/
inductive Paves (w : World) (there : List Name) : World × Except IoError Unit → Prop
  | standing {entries : Listing}
      (stands : w.disk.node? (.named there) = some (.directory entries)) : Paves w there (w, .ok ())
  | made {disk : Disk} (absent : w.disk.node? (.named there) = none) (clear : w.disk.Clear there)
      (placed : w.disk.Placed disk there (.directory [])) :
      Paves w there ({ w with disk := disk }, .ok ())
  | barred {cause : IoError} (barred : ¬ w.disk.Clear there) : Paves w there (w, .error cause)

/-- A directory into which a directory is put is placed with it. -/
theorem paves_of_put (into : w.disk.node? (.named dir) = some (.directory entries))
    (unlisted : Listing.find? entries last = none) :
    w.Paves (dir ++ [last])
      ({ w with disk := w.disk.put dir last (.directory []) }, .ok ()) := by
  have hnone := (Disk.node?_listed into last).trans unlisted
  exact .made hnone ((Disk.clear_of_directory into).concat hnone) (Disk.placed_put into _)

/-- With the directory above it made, a directory that was missing can only be made. -/
theorem paves_of_ensures {disk : Disk} {result : Except IoError World}
    (absent : w.disk.node? (.named dir) = none) (clear : w.disk.Clear dir)
    (placed : w.disk.Placed disk dir (.directory [])) :
    Ensures { w with disk := disk } dir last result → w.Paves (dir ++ [last])
      (match result with
        | .ok w' => (w', .ok ())
        | .error cause => ({ w with disk := disk }, .error cause)) := by
  intro hagain
  have hnone : disk.node? (.named (dir ++ [last])) = none := Disk.node?_listed placed.placed last
  cases hagain with
  | standing stands =>
    rw [hnone] at stands
    cases stands
  | missing absent' _ =>
    rw [placed.placed] at absent'
    cases absent'
  | barred barred _ => exact absurd ((Disk.clear_of_directory placed.placed).concat hnone) barred
  | made =>
    exact .made (Disk.node?_append_of_none absent [last]) (clear.append absent [last])
      (placed.put_made absent _)

/-- The root of the disk is there, and so is the directory that the empty path stands for. -/
theorem ensureChain_of_no_steps (hq : q.Fits) (hsteps : q.steps = []) (n : Nat) :
    w.ensureChain (q.climb n) = (w, .ok ()) := by
  obtain ⟨above, habove⟩ := q.exists_climb_eq n
  rw [habove, ensureChain]
  rcases hq.plain.bytes_of_steps_eq_nil hsteps with hbytes | hbytes
  · exact if_pos (List.isEmpty_iff.2 hbytes)
  · obtain rfl : q = ⟨[Bytes.slash]⟩ := congrArg Path.mk hbytes
    have hfollow : w.follow ⟨[Bytes.slash]⟩ = .ok (.named [], .directory w.disk.entries) :=
      follow_eq_ok_iff.2 ⟨rfl, true, rfl, rfl, fun _ => rfl⟩
    have hthere : w.isDirectory ⟨[Bytes.slash]⟩ = true := isDirectory_iff.2 ⟨_, _, hfollow⟩
    rw [if_neg (by simp [Path.isEmpty]), ensureDirectory_of_isDirectory hthere]

/-- A path and those above it are ensured one after the other, as far up as one is missing. -/
theorem paves_ensureChain (hlinks : w.disk.Linkless) (hq : q.Fits) (hnul : (0 : UInt8) ∉ q.bytes)
    (horigin : Disk.origin q w.cwd = .named start)
    (hstart : w.disk.node? (.named start) = some (.directory entries)) {n : Nat}
    (hn : q.bytes.length ≤ n) : w.Paves (start ++ q.steps) (w.ensureChain (q.climb n)) := by
  -- the list of paths grows with its bound, and the path above is shorter, so the bound still holds
  induction n generalizing q with
  | zero =>
    have hsteps : q.steps = [] := Path.steps_of_isEmpty
      (List.isEmpty_iff.2 (List.eq_nil_of_length_eq_zero (Nat.le_zero.1 hn)))
    rw [ensureChain_of_no_steps hq hsteps, hsteps, List.append_nil]
    exact .standing hstart
  | succ n ih =>
    rcases List.eq_nil_or_concat' q.steps with hsteps | ⟨front, last, hsteps⟩
    · rw [ensureChain_of_no_steps hq hsteps, hsteps, List.append_nil]
      exact .standing hstart
    have hne : q.steps ≠ [] := by simp [hsteps]
    obtain ⟨above, hparent, habove⟩ := hq.plain.parent? hne
    have hfront : above.steps = front := by rw [habove.steps, hsteps, List.dropLast_concat]
    have horigin' : Disk.origin above w.cwd = .named start := by
      rw [← horigin, Disk.origin, Disk.origin, habove.isAbsolute]
    have hrest := ih (habove.fits hq) (habove.nul_notMem hnul) horigin'
      (Nat.lt_succ_iff.1 (Nat.lt_of_lt_of_le habove.shorter hn))
    have hfirst := ensures_ensureDirectory hlinks hq hnul hsteps horigin hstart
    rw [hfront] at hrest
    rw [Path.climb, hparent, hsteps, ← List.append_assoc, ensureChain,
      if_neg (by simp [Path.isEmpty_of_steps_ne_nil hne])]
    generalize w.ensureDirectory q = first at hfirst
    generalize w.ensureChain (above.climb n) = rest at hrest
    cases hfirst with
    | standing stands => exact .standing stands
    | made into unlisted => exact paves_of_put into unlisted
    | @barred cause barred other =>
      dsimp only
      rw [if_neg other]
      exact .barred barred
    | missing absent clear =>
      dsimp only
      rw [if_pos rfl]
      cases hrest with
      | standing stands =>
        rw [absent] at stands
        cases stands
      | barred barred => exact absurd clear barred
      | @made disk _ _ placed =>
        -- the second attempt starts on the disk where the directory above is in place
        obtain ⟨_, hstart'⟩ := Disk.directory_of_append placed.placed
        have hagain := ensures_ensureDirectory (w := { w with disk := disk })
          (placed.linkless hlinks) hq hnul hsteps horigin hstart'
        dsimp only
        generalize ensureDirectory { w with disk := disk } q = second at hagain
        exact paves_of_ensures absent clear placed hagain

end World

end SourceBundle
