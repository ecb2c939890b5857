import Mathlib.Data.List.Basic
import SourceBundle.Collection.Document

/-!
Reading a document back. A reader takes the document line by line and knows only in which part of a
block it stands: before the line that names the file, before the opening fence, in the content, or
after the closing fence. Content ends at the first line that is the bare fence, so what stands in it
(headings, longer fences, empty lines) cannot be mistaken for the end of the block. As long as no
content holds such a line, and path and tag keep to their lines, the reader gives back every block,
and two different lists of blocks have different documents.
-/

namespace SourceBundle

/-- The line that closes a block. -/
def fence : List Char := ['\x60', '\x60', '\x60']

/-- What stands before the path in the line that names a file. -/
def announcement : List Char := ['H', 'e', 'r', 'e', ' ', 'i', 's', ' ']

/-- The lines of a text. The last one is what comes after the last line end, be it empty. -/
def linesOf (text : List Char) : List (List Char) := text.splitOn '\n'

namespace Entry

/-- What a document shows of a file: its path, its tag and its content. -/
def displayed (e : Entry) : String × String × String := (e.relativePath.shown, e.lang, e.content)

/-- A file whose block can be told from what comes after it: path and tag have no line end, and no
line of the content is the closing fence. -/
structure Legible (e : Entry) : Prop where
  path : '\n' ∉ e.relativePath.shown.toList
  lang : '\n' ∉ e.lang.toList
  content : fence ∉ linesOf e.content.toList

instance (e : Entry) : Decidable e.Legible :=
  decidable_of_iff
    ('\n' ∉ e.relativePath.shown.toList ∧ '\n' ∉ e.lang.toList ∧
      fence ∉ linesOf e.content.toList)
    ⟨fun ⟨a, b, c⟩ => ⟨a, b, c⟩, fun ⟨a, b, c⟩ => ⟨a, b, c⟩⟩

/-- The line that names the file. -/
def heading (e : Entry) : List Char := announcement ++ e.relativePath.shown.toList ++ [':']

/-- The line that opens the content. -/
def opening (e : Entry) : List Char := fence ++ e.lang.toList

/-- The lines of a block, with the empty one that comes after it. -/
def blockLines (e : Entry) : List (List Char) :=
  e.heading :: e.opening :: (linesOf e.content.toList ++ [fence, []])

end Entry

/-! ### The reader -/

/-- In which part of a block a reader stands. -/
inductive BlockPart where
  /-- Before the line that names the file. -/
  | outside
  /-- Before the opening fence. -/
  | named (path : List Char)
  /-- In the content; the lines so far come newest first. -/
  | inside (path lang : List Char) (content : List (List Char))
  /-- After the closing fence, before the empty line. -/
  | closed
  deriving DecidableEq, Repr

/-- Where a reader stands between two lines. -/
structure BlockReader where
  /-- The blocks so far, the newest first. -/
  blocks : List (String × String × String)
  part : BlockPart
  deriving DecidableEq, Repr

namespace BlockReader

/-- Before the first line. -/
def start : BlockReader := ⟨[], .outside⟩

/-- The text of which these were the lines, the newest first. -/
def joined (content : List (List Char)) : String :=
  String.ofList (['\n'].intercalate content.reverse)

/-- Takes one line. -/
def next (r : BlockReader) (line : List Char) : BlockReader :=
  match r.part with
  | .outside => { r with part := .named (line.drop announcement.length).dropLast }
  | .named path => { r with part := .inside path (line.drop fence.length) [] }
  | .inside path lang content =>
    if line = fence then
      ⟨(String.ofList path, String.ofList lang, joined content) :: r.blocks, .closed⟩
    else { r with part := .inside path lang (line :: content) }
  | .closed => { r with part := .outside }

end BlockReader

/-- What a document shows, block by block. -/
def readDocument (text : String) : List (String × String × String) :=
  ((linesOf text.toList).foldl BlockReader.next .start).blocks.reverse

/-! ### The lines of a document -/

variable {e : Entry} {files xs ys : List Entry} {line rest : List Char}

theorem linesOf_append (h : '\n' ∉ line) :
    linesOf (line ++ '\n' :: rest) = line :: linesOf rest := by
  rw [linesOf, List.splitOn_append_cons_self, List.splitOn_eq_singleton h]
  rfl

theorem toList_block :
    e.block.toList =
      e.heading ++ '\n' ::
        (e.opening ++ '\n' :: (e.content.toList ++ '\n' :: (fence ++ ['\n']))) := by
  simp [Entry.block, Entry.heading, Entry.opening, announcement, fence]

theorem newline_notMem_heading (h : e.Legible) : '\n' ∉ e.heading := by
  have hpath := h.path
  simp [Entry.heading, announcement, hpath]

theorem newline_notMem_opening (h : e.Legible) : '\n' ∉ e.opening := by
  have hlang := h.lang
  simp [Entry.opening, fence, hlang]

/-- The lines of a text that begins with a block: those of the block up to its closing fence, and
those of what comes after. -/
theorem linesOf_block (h : e.Legible) (rest : List Char) :
    linesOf (e.block.toList ++ rest) =
      e.heading :: e.opening :: (linesOf e.content.toList ++ fence :: linesOf rest) := by
  have hshape : e.block.toList ++ rest =
      e.heading ++ '\n' ::
        (e.opening ++ '\n' :: (e.content.toList ++ '\n' :: (fence ++ '\n' :: rest))) := by
    simp [toList_block]
  have hfence : '\n' ∉ fence := by decide
  rw [hshape, linesOf_append (newline_notMem_heading h), linesOf_append (newline_notMem_opening h),
    linesOf, List.splitOn_append_cons_self, ← linesOf, ← linesOf, linesOf_append hfence]

/-- A document's lines are those of its blocks, an empty one after each. -/
theorem linesOf_document (hne : files ≠ []) (h : ∀ e ∈ files, e.Legible) :
    linesOf (document files).toList = files.flatMap Entry.blockLines := by
  induction files with
  | nil => exact absurd rfl hne
  | cons e rest ih =>
    obtain ⟨he, hrest⟩ := List.forall_mem_cons.1 h
    cases rest with
    | nil =>
      have hlines := linesOf_block he []
      rw [List.append_nil] at hlines
      simpa [document, Entry.blockLines, linesOf] using hlines
    | cons next rest =>
      have hsplit : (document (e :: next :: rest)).toList =
          e.block.toList ++ '\n' :: (document (next :: rest)).toList := by
        simp [document]
      have hempty : linesOf ('\n' :: (document (next :: rest)).toList) =
          [] :: linesOf (document (next :: rest)).toList :=
        linesOf_append (List.not_mem_nil)
      rw [hsplit, linesOf_block he, hempty, ih (by simp) hrest, List.flatMap_cons]
      simp [Entry.blockLines]

/-! ### Reading the lines -/

/-- Lines that are not the closing fence go into the content. -/
theorem foldl_next_content {lines : List (List Char)} (h : fence ∉ lines)
    (blocks : List (String × String × String)) (path lang : List Char)
    (content : List (List Char)) :
    lines.foldl BlockReader.next ⟨blocks, .inside path lang content⟩ =
      ⟨blocks, .inside path lang (lines.reverse ++ content)⟩ := by
  induction lines generalizing content with
  | nil => rfl
  | cons line lines ih =>
    rw [List.mem_cons, not_or] at h
    obtain ⟨hline, hlines⟩ := h
    have hnext : BlockReader.next ⟨blocks, .inside path lang content⟩ line =
        ⟨blocks, .inside path lang (line :: content)⟩ := by
      simp [BlockReader.next, Ne.symm hline]
    rw [List.foldl_cons, hnext, ih hlines]
    simp

/-- The lines of a block are read as what the block shows. -/
theorem foldl_next_block (h : e.Legible) (blocks : List (String × String × String)) :
    e.blockLines.foldl BlockReader.next ⟨blocks, .outside⟩ =
      ⟨e.displayed :: blocks, .outside⟩ := by
  have hheading : BlockReader.next ⟨blocks, .outside⟩ e.heading =
      ⟨blocks, .named e.relativePath.shown.toList⟩ := by
    simp [BlockReader.next, Entry.heading]
  have hopening : BlockReader.next ⟨blocks, .named e.relativePath.shown.toList⟩ e.opening =
      ⟨blocks, .inside e.relativePath.shown.toList e.lang.toList []⟩ := by
    simp [BlockReader.next, Entry.opening]
  have hcontent : BlockReader.joined (linesOf e.content.toList).reverse = e.content := by
    rw [BlockReader.joined, List.reverse_reverse, linesOf, List.intercalate_splitOn,
      String.ofList_toList]
  rw [Entry.blockLines, List.foldl_cons, hheading, List.foldl_cons, hopening, List.foldl_append,
    foldl_next_content h.content, List.append_nil]
  simp [BlockReader.next, hcontent, Entry.displayed]

theorem foldl_next_blocks (h : ∀ e ∈ files, e.Legible) (blocks : List (String × String × String)) :
    (files.flatMap Entry.blockLines).foldl BlockReader.next ⟨blocks, .outside⟩ =
      ⟨(files.map Entry.displayed).reverse ++ blocks, .outside⟩ := by
  induction files generalizing blocks with
  | nil => rfl
  | cons e rest ih =>
    obtain ⟨he, hrest⟩ := List.forall_mem_cons.1 h
    rw [List.flatMap_cons, List.foldl_append, foldl_next_block he, ih hrest]
    simp

/-- A legible document is read back as what it was made of. -/
theorem read_document (h : ∀ e ∈ files, e.Legible) :
    readDocument (document files) = files.map Entry.displayed := by
  cases files with
  | nil => rfl
  | cons e rest =>
    rw [readDocument, linesOf_document (by simp) h, BlockReader.start, foldl_next_blocks h]
    simp

/-- Only no file at all gives the empty document. -/
theorem document_eq_empty_iff : document files = "" ↔ files = [] := by
  constructor
  · intro hdocument
    cases files with
    | nil => rfl
    | cons e rest =>
      have hchars := congrArg String.toList hdocument
      cases rest <;> simp [document, toList_block, Entry.heading, announcement] at hchars
  · rintro rfl
    rfl

/-- From the document of legible files one can read back, file by file, path, tag and content. So
two lists of files with the same document have the same length and show the same at each position,
and only no file at all gives the empty document. -/
theorem document_decodable :
    (∀ files : List Entry, (∀ e ∈ files, e.Legible) →
      readDocument (document files) = files.map Entry.displayed) ∧
    (∀ xs ys : List Entry, (∀ e ∈ xs, e.Legible) → (∀ e ∈ ys, e.Legible) →
      document xs = document ys →
        xs.length = ys.length ∧ xs.map Entry.displayed = ys.map Entry.displayed) ∧
    ∀ files : List Entry, document files = "" ↔ files = [] := by
  refine ⟨fun _ => read_document, ?_, fun _ => document_eq_empty_iff⟩
  intro xs ys hxs hys hsame
  have hdisplayed : xs.map Entry.displayed = ys.map Entry.displayed := by
    rw [← read_document hxs, ← read_document hys, hsame]
  refine ⟨?_, hdisplayed⟩
  have hlength := congrArg List.length hdisplayed
  simpa using hlength

/-- A file whose content looks like the end of a block and the beginning of another. -/
def trickyEntry : Entry where
  path := .ofString "/p/a.c"
  relativePath := .ofString "a.c"
  lang := "c"
  content := "````\n\nHere is b.c:\n```c\n"

/-- A document with a file that imitates blocks, and with one that is empty, is read back, and it is
not the document of these files in the other order. -/
theorem document_decodable_tricky :
    (∀ e ∈ [trickyEntry, { trickyEntry with content := "" }], e.Legible) ∧
      readDocument (document [trickyEntry, { trickyEntry with content := "" }]) =
        [("a.c", "c", "````\n\nHere is b.c:\n```c\n"), ("a.c", "c", "")] ∧
      document [trickyEntry, { trickyEntry with content := "" }] ≠
        document [{ trickyEntry with content := "" }, trickyEntry] := by
  have hlegible : ∀ e ∈ [trickyEntry, { trickyEntry with content := "" }], e.Legible := by decide
  have hlegible' : ∀ e ∈ [{ trickyEntry with content := "" }, trickyEntry], e.Legible := by decide
  have hread := document_decodable.1 [trickyEntry, { trickyEntry with content := "" }] hlegible
  refine ⟨hlegible, hread.trans (by decide), ?_⟩
  intro hsame
  have hdisplayed := (document_decodable.2.1 _ _ hlegible hlegible' hsame).2
  exact absurd hdisplayed (by decide)

end SourceBundle
