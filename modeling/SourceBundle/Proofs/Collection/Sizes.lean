import Mathlib.Algebra.Order.Ring.Nat
import SourceBundle.Proofs.Collection.Reordered
import SourceBundle.Proofs.Text.Sizes

/-!
The size of a collection against that of its files. Each text of a collection is what reading its file
gives, so what the collection is smaller by is what reading takes away from the files, one after the
other: bytes that form no character, and one byte of each CR LF.
-/

namespace SourceBundle

/-- The texts that files give, with what is lost of each, make up the files. -/
theorem totalSize_add_lost (sources : List Bytes) :
    totalSize (sources.map Text.ofBytes) + (sources.map Text.lost).sum =
      (sources.map List.length).sum := by
  induction sources with
  | nil => rfl
  | cons bytes sources ih =>
    have hbytes := Text.utf8ByteSize_add_lost bytes
    simp only [List.map_cons, List.sum_cons, totalSize_cons]
    omega

namespace World

variable {w : World} {config : Config} {root : Path} {e : Entry}

/-- A collected file holds what reading its path gives. -/
theorem read_of_mem_files (h : e ∈ (w.collect config root).files) :
    ∃ bytes, w.read e.path = .ok bytes ∧ e.content = Text.ofBytes bytes := by
  cases hdir : w.isDirectory root with
  | false =>
    rw [collect_of_not_directory hdir] at h
    cases h
  | true =>
    obtain ⟨place, entries, hroot⟩ := isDirectory_iff.1 hdir
    obtain ⟨_, _, bytes, -, hread, rfl⟩ := (mem_files_compared hroot).1 h
    exact ⟨bytes, hread, rfl⟩

/-- What the files of a list hold, one after the other, where each can be read. -/
theorem exists_sources {files : List Entry}
    (h : ∀ e ∈ files, ∃ bytes, w.read e.path = .ok bytes ∧ e.content = Text.ofBytes bytes) :
    ∃ sources : List Bytes, files.map (fun e => w.read e.path) = sources.map .ok ∧
      files.map (·.content) = sources.map Text.ofBytes := by
  induction files with
  | nil => exact ⟨[], rfl, rfl⟩
  | cons e files ih =>
    rw [List.forall_mem_cons] at h
    obtain ⟨⟨bytes, hread, hcontent⟩, hfiles⟩ := h
    obtain ⟨sources, hreads, hcontents⟩ := ih hfiles
    exact ⟨bytes :: sources, by rw [List.map_cons, hread, hreads, List.map_cons],
      by rw [List.map_cons, hcontent, hcontents, List.map_cons]⟩

/-- Reading gives texts without CR, and all of them: each is read back as it is, and no other text. What
is read of a file is no larger than the file, and as large exactly when the file is UTF-8 without CR LF.
So the texts of a collection are together no larger than its files, and as large exactly when all files
are of that kind. -/
theorem collect_sized (w : World) (config : Config) (root : Path) :
    (∀ bytes, '\r' ∉ (Text.ofBytes bytes).toList) ∧
      (∀ text, Text.ofBytes (Bytes.ofString text) = text ↔ '\r' ∉ text.toList) ∧
      (∀ bytes, Text.ofBytes (Bytes.ofString (Text.ofBytes bytes)) = Text.ofBytes bytes) ∧
      (∀ bytes, (Text.ofBytes bytes).utf8ByteSize ≤ bytes.length ∧
        ((Text.ofBytes bytes).utf8ByteSize = bytes.length ↔ Text.Regular bytes)) ∧
      ∃ sources : List Bytes,
        (w.collect config root).files.map (fun e => w.read e.path) = sources.map .ok ∧
          (w.collect config root).totalBytes ≤ (sources.map List.length).sum ∧
          ((w.collect config root).totalBytes = (sources.map List.length).sum ↔
            ∀ bytes ∈ sources, Text.Regular bytes) := by
  have hread : ∀ bytes, '\r' ∉ (Text.ofBytes bytes).toList := Text.cr_notMem_ofBytes
  refine ⟨hread, fun text => Text.ofBytes_ofString_iff,
    fun bytes => Text.ofBytes_ofString_iff.2 (hread bytes), ?_, ?_⟩
  · intro bytes
    have hsize := Text.utf8ByteSize_add_lost bytes
    rw [← Text.lost_eq_zero_iff]
    omega
  · have hfiles : ∀ e ∈ (w.collect config root).files,
        ∃ bytes, w.read e.path = .ok bytes ∧ e.content = Text.ofBytes bytes := fun _ =>
      read_of_mem_files
    obtain ⟨sources, hreads, hcontents⟩ := exists_sources hfiles
    have hsize := totalSize_add_lost sources
    have hlost : (sources.map Text.lost).sum = 0 ↔ ∀ bytes ∈ sources, Text.Regular bytes := by
      rw [List.sum_eq_zero_iff_forall_eq_nat, List.forall_mem_map]
      simp only [Text.lost_eq_zero_iff]
    refine ⟨sources, hreads, ?_⟩
    rw [Collection.totalBytes_eq_totalSize, hcontents, ← hlost]
    omega

end World

end SourceBundle
