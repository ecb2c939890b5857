import SourceBundle.Proofs.Text.Seams

/-!
What reading takes away from bytes. Every byte that forms no character goes, and of each CR LF one of
two; all else is kept byte for byte, a lone CR becoming one LF. So the size of a text and the bytes lost
on the way to it make up the size of the file, and nothing is lost exactly from UTF-8 without CR LF. The
texts that reading can give are those without CR, and these it gives back as they are.
-/

namespace SourceBundle

namespace Newline

variable {text rest : List Char} {c : Char}

theorem cr_notMem_unify (text : List Char) : '\r' ∉ unify text := by
  have hfolded : ∀ c, '\r' ≠ crToLf c := by
    intro c hc
    unfold crToLf at hc
    split at hc
    · cases hc
    · next hother => exact hother hc.symm
  fun_induction unify text with
  | case1 rest ih => simpa using ih
  | case2 c rest hpair ih =>
    rw [List.mem_cons, not_or]
    exact ⟨hfolded c, ih⟩
  | case3 => exact List.not_mem_nil

/-- The texts that stay as they are. -/
theorem unify_eq_self_iff : unify text = text ↔ '\r' ∉ text := by
  constructor
  · intro h
    rw [← h]
    exact cr_notMem_unify text
  · exact unify_of_notMem

/-- How many line ends are written as CR LF. -/
def pairs : List Char → Nat
  | '\r' :: '\n' :: rest => pairs rest + 1
  | _ :: rest => pairs rest
  | [] => 0

theorem pairs_cons (h : ∀ after, c = '\r' → rest ≠ '\n' :: after) : pairs (c :: rest) = pairs rest := by
  rw [pairs]
  exact fun after hc hrest => h after hc hrest

theorem pairs_eq_zero_iff (text : List Char) : pairs text = 0 ↔ ¬ ['\r', '\n'] <:+: text := by
  fun_induction pairs text with
  | case1 rest ih =>
    have hstands : ['\r', '\n'] <:+: '\r' :: '\n' :: rest := ⟨[], rest, rfl⟩
    simp [hstands]
  | case2 c rest hpair ih =>
    have hstart : ¬ ['\r', '\n'] <+: c :: rest := by
      rintro ⟨after, hafter⟩
      obtain ⟨hc, hrest⟩ := List.cons.inj hafter
      exact hpair after hc.symm hrest.symm
    rw [ih, List.infix_cons_iff, or_iff_right hstart]
  | case3 => simp

/-- Folding line ends takes one byte from each CR LF and no other. -/
theorem length_unify_add_pairs (text : List Char) :
    ((unify text).flatMap String.utf8EncodeChar).length + pairs text =
      (text.flatMap String.utf8EncodeChar).length := by
  have hsame : ∀ c, (String.utf8EncodeChar (crToLf c)).length = (String.utf8EncodeChar c).length := by
    intro c
    unfold crToLf
    split
    · next hc => rw [hc]; rfl
    · rfl
  have hcr : (String.utf8EncodeChar '\r').length = 1 := rfl
  have hlf : (String.utf8EncodeChar '\n').length = 1 := rfl
  fun_induction unify text with
  | case1 rest ih =>
    rw [pairs]
    simp only [List.flatMap_cons, List.length_append, hcr, hlf]
    omega
  | case2 c rest hpair ih =>
    rw [pairs_cons fun after hc hrest => hpair after hc hrest]
    simp only [List.flatMap_cons, List.length_append, hsame]
    omega
  | case3 => rfl

end Newline

namespace Utf8

variable {bytes : Bytes} {found : List Piece}

/-- The bytes of a piece that reading leaves out. -/
def Piece.dropped : Piece → Bytes
  | .char _ => []
  | .broken run => run

/-- The bytes that reading leaves out. -/
def dropped (bytes : Bytes) : Bytes := (pieces bytes).flatMap Piece.dropped

/-- The bytes of pieces are those of their characters and those that are left out. -/
theorem length_flatMap_bytes (found : List Piece) :
    (found.flatMap Piece.bytes).length =
      ((found.filterMap Piece.char?).flatMap String.utf8EncodeChar).length +
        (found.flatMap Piece.dropped).length := by
  induction found with
  | nil => rfl
  | cons piece rest ih =>
    rw [List.flatMap_cons, List.length_append, ih, List.filterMap_cons]
    cases piece <;> simp [Piece.bytes, Piece.dropped, Piece.char?] <;> omega

/-- Where nothing is left out, the bytes are those of the characters. -/
theorem flatMap_bytes_of_dropped (h : found.flatMap Piece.dropped = []) :
    found.flatMap Piece.bytes = (found.filterMap Piece.char?).flatMap String.utf8EncodeChar := by
  induction found with
  | nil => rfl
  | cons piece rest ih =>
    rw [List.flatMap_cons, List.append_eq_nil_iff] at h
    rw [List.flatMap_cons, ih h.2, List.filterMap_cons]
    cases piece with
    | char c => rfl
    | broken run =>
      obtain rfl : run = [] := h.1
      rfl

/-- Every byte stands in a character that is kept or is left out. -/
theorem length_dropBroken_add (bytes : Bytes) :
    ((dropBroken bytes).flatMap String.utf8EncodeChar).length + (dropped bytes).length =
      bytes.length := by
  rw [dropBroken_eq, dropped, ← length_flatMap_bytes, flatMap_bytes_pieces]

/-- Nothing is left out exactly from the encoding of a text. -/
theorem dropped_eq_nil_iff : dropped bytes = [] ↔ ∃ text, bytes = Bytes.ofString text := by
  constructor
  · intro h
    refine ⟨String.ofList (dropBroken bytes), ?_⟩
    rw [Bytes.ofString, String.toList_ofList, dropBroken_eq, ← flatMap_bytes_of_dropped h,
      flatMap_bytes_pieces]
  · rintro ⟨text, rfl⟩
    rw [dropped, pieces_ofString, List.flatMap_map]
    exact List.flatMap_eq_nil_iff.2 fun _ _ => rfl

/-- A text holds CR LF where its bytes do. -/
theorem infix_ofString_iff {text : String} :
    [0x0D, 0x0A] <:+: Bytes.ofString text ↔ ['\r', '\n'] <:+: text.toList := by
  constructor
  · rintro ⟨front, rest, hsplit⟩
    rw [List.append_assoc] at hsplit
    have hseam : ∀ b, ([0x0D, 0x0A] ++ rest).head? = some b → ¬ Continues b := fun b =>
      @not_continues_of_char (0x0A :: rest) b '\r'
    have hpair : dropBroken ([0x0D, 0x0A] ++ rest) = ['\r', '\n'] ++ dropBroken rest :=
      calc dropBroken ([0x0D, 0x0A] ++ rest)
        _ = '\r' :: dropBroken ([0x0A] ++ rest) := dropBroken_char_append '\r' _
        _ = '\r' :: '\n' :: dropBroken rest := congrArg _ (dropBroken_char_append '\n' rest)
    refine ⟨dropBroken front, dropBroken rest, ?_⟩
    rw [← dropBroken_ofString, ← hsplit, dropBroken_append front hseam, hpair, List.append_assoc]
  · rintro ⟨front, rest, hsplit⟩
    refine ⟨front.flatMap String.utf8EncodeChar, rest.flatMap String.utf8EncodeChar, ?_⟩
    rw [Bytes.ofString, ← hsplit, List.flatMap_append, List.flatMap_append]
    rfl

end Utf8

theorem Bytes.length_ofString (text : String) : (ofString text).length = text.utf8ByteSize := by
  rw [← String.ofList_toList (s := text), ofString, String.utf8ByteSize, String.toByteArray_ofList,
    String.toList_ofList, List.utf8Encode, List.size_toByteArray]

namespace Text

open Utf8

variable {bytes : Bytes}

/-- A text in UTF-8 in which no CR stands right before an LF. -/
structure Regular (bytes : Bytes) : Prop where
  encoded : ∃ text, bytes = Bytes.ofString text
  unpaired : ¬ [0x0D, 0x0A] <:+: bytes

/-- How many bytes reading takes away. -/
def lost (bytes : Bytes) : Nat := (dropped bytes).length + Newline.pairs (dropBroken bytes)

/-- The size of what is read and what is lost make up the size of the file. -/
theorem utf8ByteSize_add_lost (bytes : Bytes) :
    (ofBytes bytes).utf8ByteSize + lost bytes = bytes.length := by
  have hkept := length_dropBroken_add bytes
  have hfolded := Newline.length_unify_add_pairs (dropBroken bytes)
  have hsize : (ofBytes bytes).utf8ByteSize =
      ((Newline.unify (dropBroken bytes)).flatMap String.utf8EncodeChar).length := by
    rw [← Bytes.length_ofString, Bytes.ofString, ofBytes, String.toList_ofList, charsOfBytes_eq]
  rw [lost, hsize]
  omega

example : lost [0x61, 0x0D, 0x0A, 0x0D, 0xE2, 0x82, 0x0A] = 4 := by decide

theorem lost_eq_zero_iff : lost bytes = 0 ↔ Regular bytes := by
  rw [lost, Nat.add_eq_zero_iff, List.length_eq_zero_iff, dropped_eq_nil_iff,
    Newline.pairs_eq_zero_iff]
  constructor
  · rintro ⟨⟨text, rfl⟩, hpairs⟩
    rw [dropBroken_ofString, ← infix_ofString_iff] at hpairs
    exact ⟨⟨text, rfl⟩, hpairs⟩
  · rintro ⟨⟨text, rfl⟩, hpairs⟩
    rw [infix_ofString_iff, ← dropBroken_ofString] at hpairs
    exact ⟨⟨text, rfl⟩, hpairs⟩

theorem cr_notMem_ofBytes (bytes : Bytes) : '\r' ∉ (ofBytes bytes).toList := by
  rw [ofBytes, String.toList_ofList, charsOfBytes_eq]
  exact Newline.cr_notMem_unify _

/-- The texts that are read back as they were written. -/
theorem ofBytes_ofString_iff {text : String} :
    ofBytes (Bytes.ofString text) = text ↔ '\r' ∉ text.toList := by
  rw [ofBytes, charsOfBytes_ofString, ← Newline.unify_eq_self_iff, ← String.toList_inj,
    String.toList_ofList]

end Text

end SourceBundle
