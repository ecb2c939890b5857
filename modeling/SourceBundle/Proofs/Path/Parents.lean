import SourceBundle.Proofs.Path.Joining
import SourceBundle.Proofs.Path.Steps

/-!
The path above a path. Where only names stand between the slashes, the path above spells the same names
without the last, and is the start of the path, cut off before the slashes that lead to that name.
-/

namespace SourceBundle.Path

variable {p : Path} {bytes base last : Bytes} {front : List Name}

/-- A path of names alone: no dots, and no slash at the end but that of the root. -/
structure Plain (p : Path) : Prop where
  names : ∀ name ∈ p.steps, name ≠ Bytes.dot ∧ name ≠ Bytes.dotDot
  slash : p.endsInSlash = true → p.bytes = [Bytes.slash]

theorem Plain.normal (h : p.Plain) : ∀ name ∈ p.steps, Name.Normal name := by
  intro name hname
  obtain ⟨hne, hslash, -⟩ := mem_steps hname
  obtain ⟨hdot, hdotDot⟩ := h.names name hname
  exact ⟨hne, hdot, hdotDot, hslash⟩

/-! ### Cutting off the end -/

/-- A slash at the end adds no step. -/
theorem steps_append_slash (bytes : Bytes) :
    (Path.mk (bytes ++ [Bytes.slash])).steps = (Path.mk bytes).steps := by
  simp [steps, segments, List.splitOn_append_cons_self]

/-- What comes after the last slash is the last step. -/
theorem steps_append_name (hbase : base = [] ∨ base.getLast? = some Bytes.slash)
    (hne : last ≠ []) (hslash : Bytes.slash ∉ last) :
    (Path.mk (base ++ last)).steps = (Path.mk base).steps ++ [last] := by
  have hsplit : last.splitOn Bytes.slash = [last] := List.splitOn_eq_singleton hslash
  rcases hbase with rfl | hbase
  · simp [steps, segments, hsplit, hne]
  · obtain ⟨before, rfl⟩ := List.getLast?_eq_some_iff.1 hbase
    rw [steps_append_slash]
    simp [steps, segments, List.splitOn_append_cons_self, hsplit, hne]

/-- A dot after the last slash is a step. -/
theorem dot_mem_steps (bytes : Bytes) :
    Bytes.dot ∈ (Path.mk (0x2E :: 0x2F :: bytes).reverse).steps := by
  have hbytes : (0x2E :: 0x2F :: bytes).reverse = (bytes.reverse ++ [Bytes.slash]) ++ Bytes.dot := by
    simp [Bytes.slash, Bytes.dot]
  rw [hbytes, steps_append_name (by simp) (by decide) (by decide)]
  simp

/-- Where no step is a dot, only slashes are cut off. -/
theorem trimEnd_spec (bytes : Bytes) (hdot : Bytes.dot ∉ (Path.mk bytes.reverse).steps) :
    (Path.mk (trimEnd bytes).reverse).steps = (Path.mk bytes.reverse).steps ∧
      (Path.mk (trimEnd bytes).reverse).isAbsolute = (Path.mk bytes.reverse).isAbsolute ∧
      trimEnd bytes <:+ bytes ∧
      ((trimEnd bytes).head? = some Bytes.slash → trimEnd bytes = [Bytes.slash]) := by
  fun_induction trimEnd bytes with
  | case1 rest hrest =>
    rw [List.isEmpty_iff.1 hrest]
    exact ⟨rfl, rfl, List.suffix_refl _, fun _ => rfl⟩
  | case2 rest hrest ih =>
    have hne : rest.reverse ≠ [] := by simpa using hrest
    have hsteps : (Path.mk (0x2F :: rest).reverse).steps = (Path.mk rest.reverse).steps := by
      rw [List.reverse_cons]
      exact steps_append_slash rest.reverse
    rw [hsteps] at hdot ⊢
    obtain ⟨hsame, habsolute, hsuffix, hslash⟩ := ih hdot
    have hhead : (Path.mk (0x2F :: rest).reverse).isAbsolute = (Path.mk rest.reverse).isAbsolute := by
      rw [List.reverse_cons, isAbsolute, isAbsolute, List.head?_append_of_ne_nil _ hne]
    rw [hhead]
    exact ⟨hsame, habsolute, hsuffix.trans (List.suffix_cons _ _), hslash⟩
  | case3 rest => exact absurd (dot_mem_steps rest) hdot
  | case4 rest => exact absurd (dot_mem_steps rest) hdot
  | case5 bytes hslash =>
    refine ⟨rfl, rfl, List.suffix_refl _, ?_⟩
    intro hhead
    obtain ⟨rest, rfl⟩ := List.head?_eq_some_iff.1 hhead
    exact absurd rfl (hslash rest)

/-! ### The path above -/

/-- What does not end in a slash ends in a name. -/
theorem eq_append_name (hslash : p.endsInSlash = false) (hempty : p.isEmpty = false) :
    ∃ base last, p = ⟨base ++ last⟩ ∧ (base = [] ∨ base.getLast? = some Bytes.slash) ∧
      last ≠ [] ∧ Bytes.slash ∉ last := by
  have hcut := List.takeWhile_append_dropWhile (p := (· != Bytes.slash)) (l := p.bytes.reverse)
  have hhead := List.head?_dropWhile_not (· != Bytes.slash) p.bytes.reverse
  have hin : ∀ b ∈ p.bytes.reverse.takeWhile (· != Bytes.slash), b ≠ Bytes.slash := by
    intro b hb
    simpa using List.all_eq_true.1 List.all_takeWhile b hb
  generalize p.bytes.reverse.takeWhile (· != Bytes.slash) = back at hcut hin
  generalize p.bytes.reverse.dropWhile (· != Bytes.slash) = rest at hcut hhead
  have hbytes : p.bytes = rest.reverse ++ back.reverse := by
    rw [← List.reverse_append, hcut, List.reverse_reverse]
  have hrest : rest = [] ∨ rest.head? = some Bytes.slash := by
    cases rest with
    | nil => exact .inl rfl
    | cons b more => exact .inr (by simpa using hhead)
  refine ⟨rest.reverse, back.reverse, congrArg Path.mk hbytes, ?_, ?_, ?_⟩
  · simpa using hrest
  · rintro hback
    rw [hback, List.append_nil] at hbytes
    rcases hrest with rfl | hrest
    · simp [isEmpty, hbytes] at hempty
    · simp [endsInSlash, hbytes, hrest] at hslash
  · intro hmem
    exact hin _ (List.mem_reverse.1 hmem) rfl

/-- A name at the end does not make a path absolute. -/
theorem isAbsolute_append_name (hslash : Bytes.slash ∉ last) :
    (Path.mk (base ++ last)).isAbsolute = (Path.mk base).isAbsolute := by
  cases base with
  | nil =>
    cases last with
    | nil => rfl
    | cons b rest =>
      have hb : b ≠ Bytes.slash := fun heq => hslash (heq ▸ List.mem_cons_self ..)
      simpa [isAbsolute] using hb
  | cons b rest => rfl

/-- Nothing is cut off a name, unless it is a dot. -/
theorem trimEnd_name (rest : Bytes) (hne : last ≠ []) (hslash : Bytes.slash ∉ last)
    (hdot : last ≠ Bytes.dot) : trimEnd (last.reverse ++ rest) = last.reverse ++ rest := by
  obtain ⟨front, b, rfl⟩ := (List.eq_nil_or_concat' last).resolve_left hne
  rw [List.reverse_append, List.reverse_singleton, List.singleton_append, List.cons_append]
  have hb : b ≠ 0x2F := fun heq => hslash (by simp [heq, Bytes.slash])
  unfold trimEnd
  split
  · next heq => exact absurd (List.cons.inj heq).1 hb
  · next heq =>
    obtain ⟨rfl, hmore⟩ := List.cons.inj heq
    rcases List.eq_nil_or_concat' front with rfl | ⟨before, c, rfl⟩
    · exact absurd rfl hdot
    · rw [List.reverse_append, List.reverse_singleton, List.singleton_append, List.cons_append] at hmore
      exact absurd (by simp [(List.cons.inj hmore).1, Bytes.slash]) hslash
  · rfl

/-- The path above is what stands before the last name, without the slashes that lead to it. -/
theorem parent?_append (hbase : base = [] ∨ base.getLast? = some Bytes.slash) (hne : last ≠ [])
    (hslash : Bytes.slash ∉ last) (hdot : last ≠ Bytes.dot) :
    (Path.mk (base ++ last)).parent? = some ⟨(trimEnd base.reverse).reverse⟩ := by
  have hback : trimEnd (base ++ last).reverse = last.reverse ++ base.reverse := by
    rw [List.reverse_append, trimEnd_name _ hne hslash hdot]
  have hdrop : (last.reverse ++ base.reverse).dropWhile (· != Bytes.slash) = base.reverse := by
    rw [List.dropWhile_append_of_pos]
    · rcases hbase with rfl | hbase
      · rfl
      · obtain ⟨before, rfl⟩ := List.getLast?_eq_some_iff.1 hbase
        simp
    · intro b hb
      rw [bne_iff_ne]
      rintro rfl
      exact hslash (List.mem_reverse.1 hb)
  unfold parent?
  simp only [hback, hdrop]
  rw [if_neg]
  rintro (hnil | hroot)
  · exact hne (by simpa using (List.append_eq_nil_iff.1 hnil).1)
  · obtain ⟨b, more, hlast⟩ := List.exists_cons_of_ne_nil (List.reverse_ne_nil_iff.2 hne)
    rw [hlast, List.cons_append] at hroot
    exact hslash (List.mem_reverse.1 (by rw [hlast, (List.cons.inj hroot).1]; exact List.mem_cons_self ..))

theorem steps_of_isEmpty (hempty : p.isEmpty = true) : p.steps = [] := by
  rw [steps, segments, List.isEmpty_iff.1 hempty]
  rfl

/-- A path that walks a name has a byte. -/
theorem isEmpty_of_steps_ne_nil (hsteps : p.steps ≠ []) : p.isEmpty = false := by
  cases hempty : p.isEmpty with
  | false => rfl
  | true => exact absurd (steps_of_isEmpty hempty) hsteps

/-- And one of names alone does not end in a slash then. -/
theorem Plain.endsInSlash_of_steps_ne_nil (h : p.Plain) (hsteps : p.steps ≠ []) :
    p.endsInSlash = false := by
  cases hslash : p.endsInSlash with
  | false => rfl
  | true =>
    rw [steps, segments, h.slash hslash] at hsteps
    exact absurd rfl hsteps

/-- A path of names alone that walks none is empty or the root. -/
theorem Plain.bytes_of_steps_eq_nil (h : p.Plain) (hsteps : p.steps = []) :
    p.bytes = [] ∨ p.bytes = [Bytes.slash] := by
  cases hslash : p.endsInSlash with
  | true => exact .inr (h.slash hslash)
  | false =>
    refine .inl ?_
    cases hempty : p.isEmpty with
    | true => exact List.isEmpty_iff.1 hempty
    | false =>
      obtain ⟨base, last, rfl, hbase, hne, hlast⟩ := eq_append_name hslash hempty
      rw [steps_append_name hbase hne hlast] at hsteps
      simp at hsteps

/-- A path comes first among the paths above it. -/
theorem exists_climb_eq (n : Nat) (p : Path) : ∃ above, p.climb n = p :: above := by
  cases n with
  | zero => exact ⟨[], rfl⟩
  | succ n => rw [climb]; split <;> exact ⟨_, rfl⟩

/-- What is known of the path above. -/
structure Above (above p : Path) : Prop where
  plain : above.Plain
  steps : above.steps = p.steps.dropLast
  isAbsolute : above.isAbsolute = p.isAbsolute
  before : above.bytes <+: p.bytes
  shorter : above.bytes.length < p.bytes.length

/-- A path of names alone has a path above it as long as it walks a name. -/
theorem Plain.parent? (h : p.Plain) (hsteps : p.steps ≠ []) :
    ∃ above, p.parent? = some above ∧ above.Above p := by
  have hslash := h.endsInSlash_of_steps_ne_nil hsteps
  have hempty := isEmpty_of_steps_ne_nil hsteps
  obtain ⟨base, last, rfl, hbase, hne, hlast⟩ := eq_append_name hslash hempty
  have happend := steps_append_name hbase hne hlast
  have hnames := h.names
  rw [happend] at hnames
  have hdot : Bytes.dot ∉ (Path.mk base.reverse.reverse).steps := by
    rw [List.reverse_reverse]
    intro hmem
    exact (hnames _ (List.mem_append_left _ hmem)).1 rfl
  -- what stands before the last name is cut from its end, and the names that it walks stay
  obtain ⟨hsame, habsolute, hsuffix, hroot⟩ := trimEnd_spec base.reverse hdot
  rw [List.reverse_reverse] at hsame habsolute
  have hprefix : (trimEnd base.reverse).reverse <+: base := by
    simpa using List.reverse_prefix.2 hsuffix
  refine ⟨_, parent?_append hbase hne hlast (hnames last (by simp)).1, ⟨?_, ?_⟩, ?_, ?_, ?_, ?_⟩
  · rw [hsame]
    exact fun name hname => hnames name (List.mem_append_left _ hname)
  · intro hends
    rw [endsInSlash, beq_iff_eq, List.getLast?_reverse] at hends
    rw [hroot hends]
    rfl
  · rw [hsame, happend, List.dropLast_concat]
  · rw [habsolute, isAbsolute_append_name hlast]
  · exact hprefix.trans (List.prefix_append _ _)
  · refine Nat.lt_of_le_of_lt hprefix.length_le ?_
    rw [List.length_append]
    exact Nat.lt_add_of_pos_right (List.length_pos_iff.2 hne)

end SourceBundle.Path
