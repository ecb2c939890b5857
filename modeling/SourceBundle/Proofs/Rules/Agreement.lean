import Mathlib.Algebra.Order.BigOperators.Group.List
import Mathlib.Algebra.Order.Ring.Nat
import SourceBundle.Proofs.Collection.Found
import SourceBundle.Proofs.Rules.Extension

/-!
Which changes to the rules of inclusion can be seen. The extensions that names have are the empty one and
those with a single dot, at the start; each of them is had by more names than any rules can list. So two
sets of rules select the same names exactly when they have the same of these extensions, and the same file
names among those that no common extension selects already. Any other extension selects nothing. Names
on a disk are shown as such names, so rules that agree collect the same.
-/

namespace SourceBundle

/-- A text that can be the name of an entry. -/
structure EntryName (name : String) : Prop where
  ne_empty : name ≠ ""
  ne_dot : name ≠ "."
  ne_dotDot : name ≠ ".."
  slash_notMem : '/' ∉ name.toList
  nul_notMem : '\x00' ∉ name.toList

/-- An extension that can select a name: none at all, or a dot and after it no other. -/
def Effective (ext : String) : Prop :=
  ext = "" ∨ ∃ rest, ext.toList = '.' :: rest ∧ '.' ∉ rest ∧ '/' ∉ rest ∧ '\x00' ∉ rest

/-- Two sets of rules that differ in nothing that counts. -/
structure Inclusion.Agrees (A B : Inclusion) : Prop where
  extensions : ∀ ext, Effective ext → (ext ∈ A.extensions ↔ ext ∈ B.extensions)
  /-- What a common extension selects may stand among the file names or not. -/
  filenames : ∀ name, EntryName name →
    ¬ (extensionOf name ∈ A.extensions ∧ extensionOf name ∈ B.extensions) →
      (name ∈ A.filenames ↔ name ∈ B.filenames)

/-- The rules with one extension taken away. -/
def Inclusion.without (rules : Inclusion) (ext : String) : Inclusion :=
  { rules with extensions := rules.extensions.filter (· ≠ ext) }

variable {name ext : String} {stem : List Char} {A B rules : Inclusion}

theorem Inclusion.selects_iff :
    rules.selects name = true ↔ extensionOf name ∈ rules.extensions ∨ name ∈ rules.filenames := by
  rw [selects, Bool.or_eq_true, List.contains_iff_mem, List.contains_iff_mem]

/-! ### The extensions that names have -/

/-- The name of an entry is its own base. -/
theorem EntryName.isBase (h : EntryName name) : IsBase name.toList name.toList := by
  refine ⟨[], [], List.splitOn_eq_singleton h.slash_notMem, ⟨?_, ?_⟩, by simp⟩
  · simpa using h.ne_empty
  · exact fun hdot => h.ne_dot (String.toList_injective hdot)

theorem EntryName.effective (h : EntryName name) : Effective (extensionOf name) := by
  have hextension := hasExtension_extensionOf name
  generalize hchars : (extensionOf name).toList = chars at hextension
  cases hextension with
  | nameless | up | bare => exact .inl (String.toList_eq_nil_iff.1 hchars)
  | @dotted stem ext hbase _ hext _ =>
    obtain ⟨front, back, hsplit, -, -⟩ := hbase
    have hmem : stem ++ '.' :: ext ∈ name.toList.splitOn '/' := by
      rw [hsplit]
      simp
    obtain ⟨hslash, hchars'⟩ := mem_splitOn hmem
    have hin : ∀ c ∈ ext, c ∈ stem ++ '.' :: ext := fun c hc =>
      List.mem_append_right _ (List.mem_cons_of_mem _ hc)
    exact .inr ⟨ext, hchars, hext, fun hc => hslash (hin _ hc),
      fun hc => h.nul_notMem (hchars' _ (hin _ hc))⟩

theorem Effective.notMem (h : Effective ext) : '/' ∉ ext.toList ∧ '\x00' ∉ ext.toList := by
  rcases h with rfl | ⟨rest, hrest, -, hslash, hnul⟩
  · exact ⟨List.not_mem_nil, List.not_mem_nil⟩
  · rw [hrest]
    simp [hslash, hnul]

/-- A stem of letters `a` before an effective extension makes a name with that extension. -/
theorem Effective.entryName (h : Effective ext) (n : Nat) :
    EntryName (String.ofList (List.replicate (n + 1) 'a' ++ ext.toList)) := by
  obtain ⟨hslash, hnul⟩ := h.notMem
  have hother : ∀ text : String, text.toList.head? ≠ some 'a' →
      String.ofList (List.replicate (n + 1) 'a' ++ ext.toList) ≠ text := by
    rintro text hhead rfl
    exact hhead (by rw [String.toList_ofList]; rfl)
  refine ⟨hother _ (by decide), hother _ (by decide), hother _ (by decide), ?_, ?_⟩
  · simp [List.mem_replicate, hslash]
  · simp [List.mem_replicate, hnul]

theorem Effective.extensionOf_eq (h : Effective ext) (n : Nat) :
    extensionOf (String.ofList (List.replicate (n + 1) 'a' ++ ext.toList)) = ext := by
  have hbase := (h.entryName n).isBase
  rw [String.toList_ofList] at hbase
  have htold : HasExtension (List.replicate (n + 1) 'a' ++ ext.toList) ext.toList := by
    rcases h with rfl | ⟨rest, hrest, hdot, -, -⟩
    · refine .bare hbase ?_
      simp [List.replicate_succ, List.mem_replicate]
    · rw [hrest] at hbase ⊢
      exact .dotted hbase (by simp) hdot (by simp [List.replicate_succ])
  rw [← String.toList_ofList (l := List.replicate (n + 1) 'a' ++ ext.toList)] at htold
  rw [htold.extensionOf_eq, String.ofList_toList]

/-- Whatever names are taken, an effective extension has another. -/
theorem Effective.exists_name (h : Effective ext) (taken : List String) :
    ∃ name, EntryName name ∧ extensionOf name = ext ∧ name ∉ taken := by
  -- a stem as long as all taken names together makes a name longer than each of them
  have hbound : ∀ text ∈ taken, text.length ≤ (taken.map String.length).sum := fun _ htext =>
    List.le_sum_of_mem (List.mem_map_of_mem htext)
  refine ⟨_, h.entryName (taken.map String.length).sum, h.extensionOf_eq _, ?_⟩
  intro hmem
  have hlength := hbound _ hmem
  rw [String.length_ofList, List.length_append, List.length_replicate] at hlength
  omega

/-! ### Agreement -/

/-- Rules that differ in nothing that counts select the same names. -/
theorem Inclusion.Agrees.selects_eq (h : A.Agrees B) (hname : EntryName name) :
    A.selects name = B.selects name := by
  have hextension := h.extensions _ hname.effective
  rw [Bool.eq_iff_iff, selects_iff, selects_iff, hextension]
  by_cases hcommon : extensionOf name ∈ B.extensions
  · simp [hcommon]
  · rw [h.filenames name hname fun hboth => hcommon hboth.2]

/-- An effective extension of rules that select no more than others is one of the others. -/
theorem Inclusion.mem_extensions_of_selects
    (h : ∀ name, EntryName name → A.selects name = true → B.selects name = true)
    (hext : Effective ext) (hmem : ext ∈ A.extensions) : ext ∈ B.extensions := by
  obtain ⟨name, hname, hextension, hfresh⟩ := hext.exists_name B.filenames
  have hselects := h name hname (selects_iff.2 (.inl (hextension ▸ hmem)))
  rcases selects_iff.1 hselects with hfound | hfound
  · exact hextension ▸ hfound
  · exact absurd hfound hfresh

/-- Rules that select the same names differ in nothing that counts. -/
theorem Inclusion.agrees_of_selects (h : ∀ name, EntryName name → A.selects name = B.selects name) :
    A.Agrees B := by
  have hextensions : ∀ ext, Effective ext → (ext ∈ A.extensions ↔ ext ∈ B.extensions) := by
    intro ext hext
    exact ⟨mem_extensions_of_selects (fun name hname => (h name hname ▸ ·)) hext,
      mem_extensions_of_selects (fun name hname => (h name hname ▸ ·)) hext⟩
  refine ⟨hextensions, ?_⟩
  intro name hname hcommon
  have hextension := hextensions _ hname.effective
  have hselects := h name hname
  rw [Bool.eq_iff_iff, selects_iff, selects_iff, hextension] at hselects
  have hnone : extensionOf name ∉ B.extensions := fun hB => hcommon ⟨hextension.2 hB, hB⟩
  simpa [hnone] using hselects

/-! ### What is collected -/

/-- A name on a disk is shown as a text that can be the name of an entry. -/
theorem Name.Valid.entryName {name : Name} (h : Name.Valid name) :
    EntryName (Utf8.replaceBroken name) where
  ne_empty := fun hshown => Utf8.replaceBroken_ne_nil h.ne_nil (String.toList_eq_nil_iff.2 hshown)
  ne_dot := fun hshown => h.ne_dot ((Utf8.replaceBroken_eq_iff (by decide)).1 hshown)
  ne_dotDot := fun hshown => h.ne_dotDot ((Utf8.replaceBroken_eq_iff (by decide)).1 hshown)
  slash_notMem := Utf8.slash_notMem_replaceBroken h.slash_notMem
  nul_notMem := fun hnul => h.nul_notMem
    (Utf8.mem_of_char_mem_pieces (Utf8.char_mem_pieces hnul (by decide)) _ (by decide))

namespace World

variable {w : World} {exclusion : Exclusion} {order : Order} {root path : Path} {node : Node}

/-- Rules that agree look at a file with the same result. -/
theorem visitFile_of_agrees {name : Name} (h : A.Agrees B) (hname : Name.Valid name) :
    w.visitFile ⟨A, exclusion⟩ root path name = w.visitFile ⟨B, exclusion⟩ root path name := by
  rw [visitFile, visitFile, h.selects_eq hname.entryName]

/-- Rules that agree pay the same visits below a directory. -/
theorem descend_of_agrees (h : A.Agrees B) (hvalid : node.Valid) :
    w.descend ⟨⟨A, exclusion⟩, order⟩ root path node.entries =
      w.descend ⟨⟨B, exclusion⟩, order⟩ root path node.entries := by
  induction node using Node.induct generalizing path with
  | leaf node hleaf => rw [Node.entries_of_not_directory hleaf, descend_nil, descend_nil]
  | directory entries ih =>
    have hlisted : ∀ e ∈ entries, Name.Valid e.1 ∧ e.2.Valid := by
      intro e he
      have hfind := Listing.find?_of_mem hvalid.listing.nodup he
      exact ⟨hvalid.listing.name_of_find? hfind, hvalid.find? hfind⟩
    rw [descend_eq, descend_eq]
    congr 1
    · -- the files of the directory
      refine List.map_congr_left ?_
      intro e he
      have hmem := Listing.mem_inOrder.1 (List.mem_filter.1 he).1
      exact visitFile_of_agrees h (hlisted e hmem).1
    · -- the subdirectories
      refine List.flatMap_congr ?_
      intro e he
      obtain ⟨hin, hdir⟩ := List.mem_filter.1 he
      have hmem := Listing.mem_inOrder.1 hin
      rw [Node.eq_directory hdir, visits_branch_directory, visits_branch_directory,
        ih e hmem (hlisted e hmem).2]

/-- Rules that agree collect the same, and fail to read the same. -/
theorem collect_of_agrees (h : A.Agrees B) (hdisk : w.disk.Valid) :
    w.collect ⟨⟨A, exclusion⟩, order⟩ root = w.collect ⟨⟨B, exclusion⟩, order⟩ root := by
  cases hdir : w.isDirectory root with
  | false => rw [collect_of_not_directory hdir, collect_of_not_directory hdir]
  | true =>
    obtain ⟨place, entries, hroot⟩ := isDirectory_iff.1 hdir
    obtain ⟨-, -, -, hnode, -⟩ := follow_eq_ok_iff.1 hroot
    rw [collect_of_follow hroot, collect_of_follow hroot]
    exact congrArg _ (descend_of_agrees h (hdisk.node? hnode))

end World

/-! ### The rules that count -/

/-- Rules select the same names exactly when they differ in nothing that counts: in no effective
extension, and in no file name that a common extension does not select. An extension that is not
effective, be it that it has no leading dot or that it has another one, selects nothing. An effective one
selects a name that is lost without it. -/
theorem Inclusion.selects_agree (A B : Inclusion) :
    ((∀ name, EntryName name → A.selects name = B.selects name) ↔ A.Agrees B) ∧
      (∀ ext, (ext ≠ "" ∧ ext.toList.head? ≠ some '.') ∨ '.' ∈ ext.toList.tail → ¬ Effective ext) ∧
      (∀ ext, ¬ Effective ext → ∀ name, EntryName name →
        (Inclusion.mk [ext] []).selects name = false) ∧
      ∀ ext ∈ A.extensions, Effective ext →
        ∃ name, EntryName name ∧ A.selects name = true ∧ (A.without ext).selects name = false := by
  refine ⟨⟨agrees_of_selects, fun h name => h.selects_eq⟩, ?_, ?_, ?_⟩
  · rintro ext hodd (rfl | ⟨rest, hrest, hdot, -, -⟩)
    · simp at hodd
    · have hne : ext ≠ "" := by
        rintro rfl
        cases hrest
      rw [hrest] at hodd
      simp [hdot] at hodd
  · intro ext hext name hname
    rw [Bool.eq_false_iff, Ne, selects_iff]
    rintro (hmem | hmem)
    · exact hext (List.mem_singleton.1 hmem ▸ hname.effective)
    · cases hmem
  · intro ext hmem hext
    obtain ⟨name, hname, hextension, hfresh⟩ := hext.exists_name A.filenames
    refine ⟨name, hname, selects_iff.2 (.inl (hextension ▸ hmem)), ?_⟩
    rw [Bool.eq_false_iff, Ne, selects_iff]
    simp [without, hextension, hfresh]

/-- Of two sets of rules with `.c`, one of which lists `a.c` and `.tar.gz` besides, the same names are
selected; without `.c` some name is lost. -/
theorem Inclusion.selects_agree_redundant :
    EntryName "a.c" ∧ Effective ".c" ∧ ¬ Effective ".tar.gz" ∧
      (Inclusion.mk [".c", ".tar.gz"] ["a.c"]).Agrees ⟨[".c"], []⟩ ∧
      ∃ name, EntryName name ∧ (Inclusion.mk [".c"] []).selects name = true ∧
        ((Inclusion.mk [".c"] []).without ".c").selects name = false := by
  obtain ⟨-, hodd, -, hlost⟩ := selects_agree ⟨[".c"], []⟩ ⟨[".c"], []⟩
  have hname : EntryName "a.c" := ⟨by decide, by decide, by decide, by decide, by decide⟩
  have hc : Effective ".c" := .inr ⟨['c'], by decide, by decide, by decide, by decide⟩
  have htar : ¬ Effective ".tar.gz" := hodd _ (.inr (by decide))
  refine ⟨hname, hc, htar, (selects_agree _ _).1.1 ?_, hlost ".c" (by decide) hc⟩
  intro name hname
  rw [Bool.eq_iff_iff, selects_iff, selects_iff]
  simp only [List.mem_cons, List.not_mem_nil, or_false]
  constructor
  · rintro ((hext | hext) | rfl)
    · exact hext
    · exact absurd (hext ▸ hname.effective) htar
    · decide
  · exact fun hext => .inl (.inl hext)

end SourceBundle
