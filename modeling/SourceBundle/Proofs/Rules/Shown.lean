import Mathlib.Data.List.Infix
import SourceBundle.Proofs.Disk.Tree
import SourceBundle.Proofs.Text.Pieces
import SourceBundle.Rules.Basic

/-!
Rules and names that are not UTF-8. The rules look at a name as it is shown, but they select and leave
out as if they looked at its bytes: a dot ends a broken run, so the shown name has its last dot where
the name has, and what is shown without U+FFFD is shown byte for byte. So a rule without U+FFFD takes
no name for another one, and misses none.
-/

namespace SourceBundle

/-- The extension of a name, byte for byte: its shortest end that begins with a dot and leaves the first
byte out, or nothing when there is none. -/
def Name.extension (name : Name) : Bytes :=
  ((name.tail.tails.filter (·.head? = some 0x2E)).getLast?).getD []

/-- All texts that the rules name. -/
def Rules.members (rules : Rules) : List String :=
  rules.inclusion.extensions ++ rules.inclusion.filenames ++ rules.exclusion.directories

variable {name stem ext : Bytes} {front back chars : List Char} {rules : Rules}

/-! ### The last dot -/

/-- Either the first element at most is a separator, or the list is cut at its last one. -/
theorem notMem_tail_or_cut {α : Type} [DecidableEq α] (sep : α) (whole : List α) :
    sep ∉ whole.tail ∨ ∃ stem ext, whole = stem ++ sep :: ext ∧ stem ≠ [] ∧ sep ∉ ext := by
  by_cases hsep : sep ∈ whole.tail
  · obtain ⟨back, front, hback, hnone⟩ := List.eq_append_cons_of_mem (List.mem_reverse.2 hsep)
    obtain ⟨first, rest, rfl⟩ :=
      List.exists_cons_of_ne_nil (List.ne_nil_of_mem (List.mem_of_mem_tail hsep))
    have hrest : rest = front.reverse ++ sep :: back.reverse := by
      rw [← List.reverse_reverse rest, show rest.reverse = _ from hback]
      simp
    exact .inr ⟨first :: front.reverse, back.reverse, by rw [hrest]; rfl, List.cons_ne_nil _ _,
      by simpa using hnone⟩
  · exact .inl hsep

/-- Where no dot is, no end begins with one. -/
theorem filter_tails_of_notMem (h : (0x2E : UInt8) ∉ ext) :
    ext.tails.filter (·.head? = some 0x2E) = [] := by
  refine List.filter_eq_nil_iff.2 ?_
  intro suffix hsuffix hhead
  have hmem : (0x2E : UInt8) ∈ suffix := List.mem_of_head? (by simpa using hhead)
  exact h (((List.mem_tails _ _).1 hsuffix).subset hmem)

theorem Name.extension_of_notMem (h : (0x2E : UInt8) ∉ name.tail) : extension name = [] := by
  rw [extension, filter_tails_of_notMem h]
  rfl

theorem Name.extension_of_cut (hstem : stem ≠ []) (hext : (0x2E : UInt8) ∉ ext) :
    extension (stem ++ 0x2E :: ext) = 0x2E :: ext := by
  -- more bytes in front add longer ends only, and the shortest one is the last
  have hend : ∀ before : Bytes,
      ((before ++ 0x2E :: ext).tails.filter (·.head? = some 0x2E)).getLast? = some (0x2E :: ext) := by
    intro before
    induction before with
    | nil => simp [filter_tails_of_notMem hext]
    | cons b before ih =>
      rw [List.cons_append, List.tails_cons, List.filter_cons]
      split
      · rw [List.getLast?_cons, ih]
        rfl
      · exact ih
  rw [extension, List.tail_append_of_ne_nil hstem, hend]
  rfl

/-- The same of a text. -/
theorem fromLastDot_append (front : List Char) (h : '.' ∉ back) :
    fromLastDot (front ++ '.' :: back) = '.' :: back := by
  have hall : ∀ c ∈ back.reverse, decide (c ≠ '.') = true := by
    intro c hc
    refine decide_eq_true ?_
    rintro rfl
    exact h (List.mem_reverse.1 hc)
  have htake : (back.reverse ++ '.' :: front.reverse).takeWhile (· ≠ '.') = back.reverse := by
    rw [List.takeWhile_append_of_pos hall]
    simp
  simp only [fromLastDot, List.reverse_append, List.reverse_cons, List.append_assoc,
    List.singleton_append]
  rw [htake]
  simp

/-- A name of one segment is its own base. -/
theorem baseName?_of_single (hslash : '/' ∉ chars) (hne : chars ≠ []) (hdot : chars ≠ ['.']) :
    baseName? chars = some chars := by
  rw [baseName?, List.splitOn_eq_singleton hslash]
  simp [hne, hdot]

/-! ### The name as it is shown -/

namespace Utf8

/-- A dot cuts a shown name where it cuts the name. -/
theorem toList_replaceBroken_cut (stem ext : Bytes) :
    (replaceBroken (stem ++ 0x2E :: ext)).toList =
      (replaceBroken stem).toList ++ '.' :: (replaceBroken ext).toList := by
  have hcut : pieces (0x2E :: ext) = .char '.' :: pieces ext := pieces_char_append '.' ext
  have hends : ∀ b, (0x2E :: ext).head? = some b → ¬ Continues b := by
    rintro b ⟨rfl⟩
    unfold Continues
    decide
  simp only [toList_replaceBroken, pieces_append stem hends, hcut, List.map_append, List.map_cons]
  rfl

theorem dot_notMem_replaceBroken (h : (0x2E : UInt8) ∉ name) : '.' ∉ (replaceBroken name).toList := by
  intro hdot
  exact h (mem_of_char_mem_pieces (char_mem_pieces hdot (by decide)) _ (by decide))

/-- A shown name has a dot after its first character only where the name has one after its first byte. -/
theorem dot_notMem_tail_replaceBroken (h : (0x2E : UInt8) ∉ name.tail) :
    '.' ∉ (replaceBroken name).toList.tail := by
  cases name with
  | nil => exact List.not_mem_nil
  | cons b rest =>
    by_cases hb : b = 0x2E
    · subst hb
      have hcut := toList_replaceBroken_cut [] rest
      rw [List.nil_append] at hcut
      rw [hcut]
      exact dot_notMem_replaceBroken h
    · have hnone : (0x2E : UInt8) ∉ b :: rest := by
        rw [List.mem_cons, not_or]
        exact ⟨Ne.symm hb, h⟩
      exact fun hdot => dot_notMem_replaceBroken hnone (List.mem_of_mem_tail hdot)

theorem slash_notMem_replaceBroken (h : Bytes.slash ∉ name) :
    '/' ∉ (replaceBroken name).toList := by
  intro hslash
  exact h (mem_of_char_mem_pieces (char_mem_pieces hslash (by decide)) _ (by decide))

theorem replaceBroken_ne_nil (h : name ≠ []) : (replaceBroken name).toList ≠ [] := by
  intro hnil
  rw [toList_replaceBroken, List.map_eq_nil_iff] at hnil
  have hbytes := flatMap_bytes_pieces name
  rw [hnil] at hbytes
  exact h hbytes.symm

/-- The extension of a shown name is the extension of the name, shown. -/
theorem extensionOf_replaceBroken (hname : Name.Normal name) :
    extensionOf (replaceBroken name) = replaceBroken (Name.extension name) := by
  have hshown : ∀ text : String, '\uFFFD' ∉ text.toList → name ≠ Bytes.ofString text →
      (replaceBroken name).toList ≠ text.toList := by
    intro text hplain hne heq
    exact hne ((replaceBroken_eq_iff hplain).1 (String.toList_injective heq))
  have hbase := baseName?_of_single (slash_notMem_replaceBroken hname.slash_notMem)
    (replaceBroken_ne_nil hname.ne_nil) (hshown "." (by decide) hname.ne_dot)
  have hsuffix : suffixOf (replaceBroken name).toList =
      fromLastDot (replaceBroken name).toList.tail :=
    if_neg (hshown ".." (by decide) hname.ne_dotDot)
  simp only [extensionOf, hbase, hsuffix]
  -- a broken run ends before a dot, so both sides are cut at the same one
  rcases notMem_tail_or_cut (0x2E : UInt8) name with hnone | ⟨stem, ext, rfl, hstem, hext⟩
  · rw [Name.extension_of_notMem hnone, fromLastDot,
      if_neg (by simpa using dot_notMem_tail_replaceBroken hnone)]
    rfl
  · have hcut := toList_replaceBroken_cut [] ext
    rw [Name.extension_of_cut hstem hext, toList_replaceBroken_cut,
      List.tail_append_of_ne_nil (replaceBroken_ne_nil hstem),
      fromLastDot_append _ (dot_notMem_replaceBroken hext)]
    refine String.toList_injective ?_
    rw [String.toList_ofList]
    exact hcut.symm

/-- Texts without U+FFFD hold a shown name exactly when one of them is written as the name. -/
theorem contains_replaceBroken_iff {texts : List String}
    (h : ∀ text ∈ texts, '\uFFFD' ∉ text.toList) :
    texts.contains (replaceBroken name) = true ↔ ∃ text ∈ texts, name = Bytes.ofString text := by
  rw [List.contains_iff_mem]
  constructor
  · intro hmem
    exact ⟨_, hmem, (replaceBroken_eq_iff (h _ hmem)).1 rfl⟩
  · rintro ⟨text, hmem, hname⟩
    rwa [(replaceBroken_eq_iff (h text hmem)).2 hname]

end Utf8

/-- Rules without U+FFFD go by the bytes of a name: a file is selected when a file name of the rules is
written as it is, or an extension as its extension is, and a directory is left out when a directory of
the rules is written as it is. -/
theorem Rules.go_by_bytes (hrules : ∀ text ∈ rules.members, '\uFFFD' ∉ text.toList)
    (hname : Name.Normal name) :
    (rules.inclusion.selects (Utf8.replaceBroken name) = true ↔
      (∃ file ∈ rules.inclusion.filenames, name = Bytes.ofString file) ∨
        ∃ suffix ∈ rules.inclusion.extensions, Name.extension name = Bytes.ofString suffix) ∧
    (rules.exclusion.excludes (Utf8.replaceBroken name) = true ↔
      ∃ directory ∈ rules.exclusion.directories, name = Bytes.ofString directory) := by
  simp only [members, List.forall_mem_append] at hrules
  obtain ⟨⟨hextensions, hfilenames⟩, hdirectories⟩ := hrules
  constructor
  · rw [Inclusion.selects, Bool.or_eq_true, Utf8.extensionOf_replaceBroken hname,
      Utf8.contains_replaceBroken_iff hextensions, Utf8.contains_replaceBroken_iff hfilenames]
    exact or_comm
  · exact Utf8.contains_replaceBroken_iff hdirectories

/-- The built-in rules select a file whose name breaks off within a character right before `.c`, do not
select one with a stray byte in its extension, and do not leave out `build` with a stray byte after it. -/
theorem Rules.go_by_bytes_of_broken :
    (∀ text ∈ Rules.builtin.members, '\uFFFD' ∉ text.toList) ∧
      Name.Normal [0xE2, 0x82, 0x2E, 0x63] ∧
      Rules.builtin.inclusion.selects (Utf8.replaceBroken [0xE2, 0x82, 0x2E, 0x63]) = true ∧
      Rules.builtin.inclusion.selects (Utf8.replaceBroken [0x61, 0x2E, 0xFF, 0x63]) = false ∧
      Rules.builtin.exclusion.excludes
        (Utf8.replaceBroken [0x62, 0x75, 0x69, 0x6C, 0x64, 0xFF]) = false := by
  have hrules : ∀ text ∈ Rules.builtin.members, '\uFFFD' ∉ text.toList := by decide
  have hshort : Name.Normal [0xE2, 0x82, 0x2E, 0x63] :=
    ⟨by decide, by decide, by decide, by decide⟩
  have hstray : Name.Normal [0x61, 0x2E, 0xFF, 0x63] := ⟨by decide, by decide, by decide, by decide⟩
  have hbuild : Name.Normal [0x62, 0x75, 0x69, 0x6C, 0x64, 0xFF] :=
    ⟨by decide, by decide, by decide, by decide⟩
  refine ⟨hrules, hshort, (Rules.go_by_bytes hrules hshort).1.2 (.inr ⟨".c", by decide, by decide⟩),
    Bool.eq_false_iff.2 fun h => ?_, Bool.eq_false_iff.2 fun h => ?_⟩
  · have hnone := (Rules.go_by_bytes hrules hstray).1.1 h
    revert hnone
    decide
  · have hnone := (Rules.go_by_bytes hrules hbuild).2.1 h
    revert hnone
    decide

end SourceBundle
