import SourceBundle.Proofs.Path.Spelled
import SourceBundle.Proofs.Rules.Shown

/-!
The extension of any text. A text is taken for a path: only its last segment that names something counts,
whatever slashes and single dots come after it, and that segment is cut at its last dot. So the extension
that is found in the characters is the one that the file name of the path has in its bytes, a directory in
front changes nothing, and the tag is what follows the dot.
-/

namespace SourceBundle

/-- A segment that names something. -/
def Names (segment : List Char) : Prop := segment ≠ [] ∧ segment ≠ ['.']

/-- The last segment of a text between its slashes that names something. -/
def IsBase (text base : List Char) : Prop :=
  ∃ front back, text.splitOn '/' = front ++ base :: back ∧ Names base ∧ ∀ s ∈ back, ¬ Names s

/-- How a text comes to its extension. -/
inductive HasExtension (text : List Char) : List Char → Prop
  /-- Nothing in it names anything. -/
  | nameless (h : ∀ s ∈ text.splitOn '/', ¬ Names s) : HasExtension text []
  /-- Its base is the step upwards. -/
  | up (h : IsBase text ['.', '.']) : HasExtension text []
  /-- Its base has no dot after the first character. -/
  | bare {base : List Char} (h : IsBase text base) (hdot : '.' ∉ base.tail) : HasExtension text []
  /-- Its base is cut at its last dot, which is not the first character. -/
  | dotted {stem ext : List Char} (h : IsBase text (stem ++ '.' :: ext)) (hstem : stem ≠ [])
      (hext : '.' ∉ ext) (hup : stem ++ '.' :: ext ≠ ['.', '.']) : HasExtension text ('.' :: ext)

variable {text rest base chars ext : List Char} {s : String}

/-! ### The base -/

theorem baseName?_eq_some_iff : baseName? text = some base ↔ IsBase text base := by
  rw [baseName?, List.getLast?_filter, List.find?_eq_some_iff_append]
  simp only [decide_eq_true_eq, Bool.not_eq_true', decide_eq_false_iff_not]
  constructor
  · rintro ⟨hbase, back, front, hsplit, hback⟩
    refine ⟨front.reverse, back.reverse, ?_, hbase, ?_⟩
    · rw [← List.reverse_reverse (text.splitOn '/'), hsplit]
      simp
    · intro segment hsegment
      exact hback segment (List.mem_reverse.1 hsegment)
  · rintro ⟨front, back, hsplit, hbase, hback⟩
    refine ⟨hbase, back.reverse, front.reverse, ?_, ?_⟩
    · rw [hsplit]
      simp
    · intro segment hsegment
      exact hback segment (List.mem_reverse.1 hsegment)

theorem baseName?_eq_none_iff : baseName? text = none ↔ ∀ s ∈ text.splitOn '/', ¬ Names s := by
  rw [baseName?, List.getLast?_eq_none_iff, List.filter_eq_nil_iff]
  simp only [decide_eq_true_eq]
  rfl

/-- After a slash, what names something there comes first. -/
theorem baseName?_append_slash (text rest : List Char) :
    baseName? (text ++ '/' :: rest) = (baseName? rest).or (baseName? text) := by
  rw [baseName?, List.splitOn_append_cons_self, List.filter_append, List.getLast?_append]
  rfl

theorem extensionOf_of_baseName? {t : String} (h : baseName? s.toList = baseName? t.toList) :
    extensionOf s = extensionOf t := by
  rw [extensionOf, h]
  rfl

theorem suffixOf_of_notMem (h : '.' ∉ base.tail) : suffixOf base = [] := by
  have hnone : fromLastDot base.tail = [] := if_neg (by simpa using h)
  rw [suffixOf, hnone, ite_self]

theorem suffixOf_of_cut {stem : List Char} (hstem : stem ≠ []) (hext : '.' ∉ ext)
    (hup : stem ++ '.' :: ext ≠ ['.', '.']) : suffixOf (stem ++ '.' :: ext) = '.' :: ext := by
  rw [suffixOf, if_neg hup, List.tail_append_of_ne_nil hstem, fromLastDot_append _ hext]

/-- Every text comes to its extension in one of the four ways. -/
theorem hasExtension_extensionOf (s : String) : HasExtension s.toList (extensionOf s).toList := by
  unfold extensionOf
  cases hbase : baseName? s.toList with
  | none => exact .nameless (baseName?_eq_none_iff.1 hbase)
  | some base =>
    have hbase := baseName?_eq_some_iff.1 hbase
    simp only [String.toList_ofList]
    by_cases hup : base = ['.', '.']
    · rw [suffixOf, if_pos hup]
      exact .up (hup ▸ hbase)
    · rcases notMem_tail_or_cut '.' base with hnone | ⟨stem, ext, rfl, hstem, hext⟩
      · rw [suffixOf_of_notMem hnone]
        exact .bare hbase hnone
      · rw [suffixOf_of_cut hstem hext hup]
        exact .dotted hbase hstem hext hup

/-- And the four ways leave no choice. -/
theorem HasExtension.extensionOf_eq (h : HasExtension s.toList ext) :
    extensionOf s = String.ofList ext := by
  unfold extensionOf
  cases h with
  | nameless h => rw [baseName?_eq_none_iff.2 h]
  | up h => rw [baseName?_eq_some_iff.2 h]; rfl
  | bare h hdot => rw [baseName?_eq_some_iff.2 h]; simp only [suffixOf_of_notMem hdot]
  | dotted h hstem hext hup =>
    rw [baseName?_eq_some_iff.2 h]
    simp only [suffixOf_of_cut hstem hext hup]

theorem extensionOf_eq_iff : extensionOf s = String.ofList ext ↔ HasExtension s.toList ext := by
  constructor
  · intro h
    have hextension := hasExtension_extensionOf s
    rwa [h, String.toList_ofList] at hextension
  · exact HasExtension.extensionOf_eq

/-- An extension begins with its dot, and the tag is the rest. -/
theorem extensionOf_eq_languageTag (s : String) :
    (extensionOf s = "" ∧ languageTag s = "") ∨ extensionOf s = "." ++ languageTag s := by
  have hextension := hasExtension_extensionOf s
  generalize hext : (extensionOf s).toList = ext at hextension
  have hsame : extensionOf s = String.ofList ext := by rw [← hext, String.ofList_toList]
  rw [languageTag, hext, hsame]
  cases hextension with
  | nameless | up | bare => exact .inl ⟨rfl, rfl⟩
  | dotted =>
    refine .inr (String.toList_injective ?_)
    simp

/-! ### The file name of the path -/

/-- A segment names something in the characters as in the bytes. -/
theorem names_iff : Names chars ↔
    chars.flatMap String.utf8EncodeChar ≠ [] ∧ chars.flatMap String.utf8EncodeChar ≠ Bytes.dot := by
  have hdot : Bytes.dot = ['.'].flatMap String.utf8EncodeChar := rfl
  rw [hdot, Ne, Ne, Utf8.flatMap_utf8EncodeChar_eq_nil_iff, Utf8.flatMap_utf8EncodeChar_inj]
  rfl

theorem idle_iff : ¬ Names chars ↔
    chars.flatMap String.utf8EncodeChar = [] ∨ chars.flatMap String.utf8EncodeChar = Bytes.dot := by
  rw [names_iff, not_and_or, not_ne_iff, not_ne_iff]

/-- The base of a text, unless it is the step upwards, is the file name of the path that the text
spells. -/
theorem IsBase.fileName? (h : IsBase s.toList base) :
    (Path.ofString s).fileName? =
      if base = ['.', '.'] then none else some (base.flatMap String.utf8EncodeChar) := by
  obtain ⟨front, back, hsplit, hbase, hback⟩ := h
  obtain ⟨hne, hdot⟩ := names_iff.1 hbase
  have hsegments := Path.segments_ofString s
  rw [hsplit, List.map_append, List.map_cons] at hsegments
  have hidle : ∀ segment ∈ back.map (·.flatMap String.utf8EncodeChar),
      segment = [] ∨ segment = Bytes.dot := by
    intro segment hsegment
    obtain ⟨chars, hchars, rfl⟩ := List.mem_map.1 hsegment
    exact idle_iff.1 (hback chars hchars)
  have hup : Bytes.dotDot = ['.', '.'].flatMap String.utf8EncodeChar := rfl
  rw [Path.fileName?_of_segments hsegments hne hdot hidle, hup]
  simp only [Utf8.flatMap_utf8EncodeChar_inj]

/-- The extension of a text is that of the file name of its path, as it is shown. -/
theorem extensionOf_eq_fileName? (s : String) :
    extensionOf s =
      ((Path.ofString s).fileName?.map fun name =>
        Utf8.replaceBroken (Name.extension name)).getD "" := by
  cases hbase : baseName? s.toList with
  | none =>
    have hidle : ∀ segment ∈ (Path.ofString s).segments, segment = [] ∨ segment = Bytes.dot := by
      intro segment hsegment
      rw [Path.segments_ofString] at hsegment
      obtain ⟨chars, hchars, rfl⟩ := List.mem_map.1 hsegment
      exact idle_iff.1 (baseName?_eq_none_iff.1 hbase chars hchars)
    rw [Path.fileName?_eq_none hidle, extensionOf, hbase]
    rfl
  | some base =>
    have hlast := baseName?_eq_some_iff.1 hbase
    rw [hlast.fileName?]
    split
    · next hup =>
      rw [extensionOf, hbase, hup]
      rfl
    · next hup =>
      obtain ⟨front, back, hsplit, hnames, -⟩ := hlast
      obtain ⟨hne, hdot⟩ := names_iff.1 hnames
      have hmem : base ∈ s.toList.splitOn '/' := by
        rw [hsplit]
        simp
      have hslash : '/' ∉ base := (mem_splitOn hmem).1
      have hnormal : Name.Normal (base.flatMap String.utf8EncodeChar) :=
        { ne_nil := hne
          ne_dot := hdot
          ne_dotDot := fun h => hup (Utf8.flatMap_utf8EncodeChar_inj.1 h)
          slash_notMem := Utf8.slash_notMem_flatMap hslash }
      have hshown : Utf8.replaceBroken (base.flatMap String.utf8EncodeChar) = String.ofList base := by
        have h := Utf8.replaceBroken_ofString (String.ofList base)
        rwa [Bytes.ofString, String.toList_ofList] at h
      have hsame : baseName? s.toList = baseName? (String.ofList base).toList := by
        rw [hbase, String.toList_ofList, baseName?_of_single hslash hnames.1 hnames.2]
      rw [extensionOf_of_baseName? hsame, ← hshown, Utf8.extensionOf_replaceBroken hnormal]
      rfl

/-! ### Slashes -/

theorem extensionOf_append_slash (s : String) : extensionOf (s ++ "/") = extensionOf s := by
  refine extensionOf_of_baseName? ?_
  rw [String.toList_append]
  exact baseName?_append_slash s.toList []

theorem extensionOf_append_slash_dot (s : String) : extensionOf (s ++ "/.") = extensionOf s := by
  refine extensionOf_of_baseName? ?_
  rw [String.toList_append]
  exact baseName?_append_slash s.toList ['.']

theorem extensionOf_append_name (s : String) {name : String} (hslash : '/' ∉ name.toList)
    (hne : name ≠ "") (hdot : name ≠ ".") : extensionOf (s ++ "/" ++ name) = extensionOf name := by
  have hchars : (s ++ "/" ++ name).toList = s.toList ++ '/' :: name.toList := by simp
  have hnil : name.toList ≠ [] := by simpa using hne
  have hpoint : name.toList ≠ ['.'] := fun h => hdot (String.toList_injective h)
  have hown := baseName?_of_single hslash hnil hpoint
  refine extensionOf_of_baseName? ?_
  rw [hchars, baseName?_append_slash, hown]
  rfl

/-- The extension of every text is told by its last segment that names something, and it is the extension
of the file name of the path that the text spells. The tag is the extension without its dot. Slashes and
single dots at the end change nothing, nor do directories in front of a name. -/
theorem extensionOf_determined (s : String) :
    (∀ ext, extensionOf s = String.ofList ext ↔ HasExtension s.toList ext) ∧
      extensionOf s =
        ((Path.ofString s).fileName?.map fun name =>
          Utf8.replaceBroken (Name.extension name)).getD "" ∧
      ((extensionOf s = "" ∧ languageTag s = "") ∨ extensionOf s = "." ++ languageTag s) ∧
      extensionOf (s ++ "/") = extensionOf s ∧
      extensionOf (s ++ "/.") = extensionOf s ∧
      ∀ name : String, '/' ∉ name.toList → name ≠ "" → name ≠ "." →
        extensionOf (s ++ "/" ++ name) = extensionOf name :=
  ⟨fun _ => extensionOf_eq_iff, extensionOf_eq_fileName? s, extensionOf_eq_languageTag s,
    extensionOf_append_slash s, extensionOf_append_slash_dot s,
    fun _ => extensionOf_append_name s⟩

/-- Dots at the start, a doubled slash and a single dot at the end, and a name of dots alone. -/
theorem extensionOf_determined_dots :
    HasExtension "lib.d/..c//./".toList ['.', 'c'] ∧
      '/' ∉ "...".toList ∧ extensionOf ("lib.d" ++ "/" ++ "...") = "." := by
  have hslash : '/' ∉ "...".toList := by decide
  obtain ⟨htold, -, -, -, -, -⟩ := extensionOf_determined "lib.d/..c//./"
  obtain ⟨-, -, -, -, -, hjoined⟩ := extensionOf_determined "lib.d"
  refine ⟨(htold ['.', 'c']).1 (by decide), hslash, ?_⟩
  rw [hjoined "..." hslash (by decide) (by decide)]
  decide

end SourceBundle
