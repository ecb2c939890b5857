import SourceBundle.Proofs.Options.Wording

/-!
The order of options. The wordings are told one by one, and what is known after each is what all of them
ask for together, until one is told that may not be told again. So the options that come out are read
off the wordings without regard to their order; where there are none, the mistake is one of those that
the wordings make.
-/

namespace SourceBundle

variable {words before words' : List Wording} {i : Wording} {o o' : Options}

theorem givenOnce_append (before words : List Wording) :
    givenOnce (before ++ words) = givenOnce before ++ givenOnce words := List.filterMap_append

theorem givenOnce_single (i : Wording) : givenOnce [i] = i.once?.toList := by
  cases i <;> rfl

/-! ### What wordings ask for -/

/-- The options that wordings ask for, a later value before an earlier one. -/
def asked (words : List Wording) : Options where
  root := (words.filterMap Wording.root?).getLast?
  output := (words.filterMap Wording.output?).getLast?
  stdout := decide (Wording.stdout ∈ words)
  sorted := decide (Wording.sorted ∈ words)
  verbose := min maxVerbose (words.map Wording.verbosity).sum

theorem Reading.raised_min (count total : Nat) :
    Reading.raised count (min maxVerbose total) = min maxVerbose (total + count) := by
  induction count generalizing total with
  | zero => rfl
  | succ count ih =>
    rw [Reading.raised, show min maxVerbose (min maxVerbose total + 1) = min maxVerbose (total + 1) by
      omega, ih]
    congr 1
    omega

/-- One more wording is put beside what the others ask for. -/
theorem put_asked (words : List Wording) (i : Wording) :
    Reading.put i (asked words) = asked (words ++ [i]) := by
  cases i <;> simp [Reading.put, asked, Wording.root?, Wording.output?, Wording.verbosity,
    Reading.raised_min, List.filterMap_append]

/-- A value of an option that is given at most once is the only one. -/
theorem eq_toList_getLast? {α : Type} {l : List α} (h : l.length ≤ 1) : l = l.getLast?.toList := by
  match l, h with
  | [], _ => rfl
  | [a], _ => rfl

theorem length_roots (words : List Wording) :
    (words.filterMap Wording.root?).length = (givenOnce words).count .root := by
  rw [givenOnce, List.length_filterMap_eq_countP, List.count_filterMap]
  refine List.countP_congr ?_
  intro i _
  cases i <;> simp [Wording.root?, Wording.once?]

theorem length_outputs (words : List Wording) :
    (words.filterMap Wording.output?).length = (givenOnce words).count .output := by
  rw [givenOnce, List.length_filterMap_eq_countP, List.count_filterMap]
  refine List.countP_congr ?_
  intro i _
  cases i <;> simp [Wording.output?, Wording.once?]

/-- Where nothing is given twice, that is what they ask for. -/
theorem asksFor_asked (h : (givenOnce words).Nodup) : AsksFor words (asked words) := by
  have honce := List.nodup_iff_count_le_one.1 h
  refine ⟨?_, ?_, by simp [asked], by simp [asked], rfl⟩
  · refine eq_toList_getLast? ?_
    rw [length_roots]
    exact honce _
  · refine eq_toList_getLast? ?_
    rw [length_outputs]
    exact honce _

/-- Wordings ask for one set of options only. -/
theorem AsksFor.unique (h : AsksFor words o) (h' : AsksFor words o') : o = o' := by
  have hvalue : ∀ {a b : Option Path}, a.toList = b.toList → a = b := by
    intro a b hab
    cases a <;> cases b <;> simp_all
  have hroot := hvalue (h.root.symm.trans h'.root)
  have houtput := hvalue (h.output.symm.trans h'.output)
  have hstdout := h.stdout.trans h'.stdout.symm
  have hsorted := h.sorted.trans h'.sorted.symm
  have hverbose := h.verbose.trans h'.verbose.symm
  cases o
  cases o'
  simp_all

theorem eq_toList_of_perm {α : Type} {l : List α} {value : Option α} (h : l.Perm value.toList) :
    l = value.toList := by
  cases value with
  | none => exact h.eq_nil
  | some a => exact List.perm_singleton.1 h

/-- In another order they ask for the same. -/
theorem AsksFor.of_perm (hperm : words'.Perm words) (h : AsksFor words o) : AsksFor words' o where
  root := eq_toList_of_perm (h.root ▸ hperm.filterMap _)
  output := eq_toList_of_perm (h.output ▸ hperm.filterMap _)
  stdout := h.stdout.trans hperm.mem_iff.symm
  sorted := h.sorted.trans hperm.mem_iff.symm
  verbose := by rw [h.verbose, (hperm.map _).sum_eq]

theorem Compatible.of_perm (hperm : words'.Perm words) (h : Compatible words) :
    Compatible words' where
  once := (hperm.filterMap _).nodup_iff.2 h.once
  one_end := by
    simp only [givenOnce, (hperm.filterMap _).mem_iff]
    exact h.one_end

namespace Reading

/-! ### One more wording, and all of them -/

/-- What is known when wordings are told, none of which may not be told again. -/
def after (words : List Wording) : Reading where
  options := asked words
  given := givenOnce words
  pending := none
  escaped := false

theorem after_concat (words : List Wording) (i : Wording) :
    after (words ++ [i]) =
      ⟨put i (asked words), givenOnce words ++ i.once?.toList, none, false⟩ := by
  rw [after, ← put_asked, givenOnce_append, givenOnce_single]

/-- A wording that may still be told is added to what is known. -/
theorem tell_after (h : (givenOnce (words ++ [i])).Nodup) :
    (after words).tell i = .ok (after (words ++ [i])) := by
  rw [givenOnce_append, givenOnce_single] at h
  rw [after_concat, tell]
  cases honce : i.once? with
  | none =>
    rw [Option.toList_none, List.append_nil]
    rfl
  | some flag =>
    rw [honce, Option.toList_some, List.nodup_append] at h
    have hnew : flag ∉ (after words).given := fun hmem => h.2.2 flag hmem flag (by simp) rfl
    rw [Option.elim_some, note_eq, if_neg hnew]
    rfl

/-- An option that was given is refused. -/
theorem tell_after_given {flag : Flag} (honce : i.once? = some flag)
    (hgiven : flag ∈ givenOnce words) : (after words).tell i = refuse (.repeated flag) := by
  have hknown : flag ∈ (after words).given := hgiven
  rw [tell, honce, Option.elim_some, note_eq, if_pos hknown]
  rfl

theorem foldlM_tell (before words : List Wording) (h : (givenOnce (before ++ words)).Nodup) :
    words.foldlM tell (after before) = .ok (after (before ++ words)) := by
  induction words generalizing before with
  | nil => rw [List.append_nil]; rfl
  | cons i words ih =>
    rw [← List.singleton_append, ← List.append_assoc] at h ⊢
    have hfirst : (givenOnce (before ++ [i])).Nodup := by
      rw [givenOnce_append] at h
      exact h.of_append_left
    rw [List.singleton_append, List.foldlM_cons, tell_after hfirst]
    exact ih (before ++ [i]) h

/-- The first option that is given again is the mistake that is told. -/
theorem foldlM_tell_of_repeated (before words : List Wording) (hbefore : (givenOnce before).Nodup)
    (h : ¬ (givenOnce (before ++ words)).Nodup) :
    ∃ flag, List.Duplicate flag (givenOnce (before ++ words)) ∧
      words.foldlM tell (after before) = refuse (.repeated flag) := by
  induction words generalizing before with
  | nil => exact absurd (by rwa [List.append_nil]) h
  | cons i words ih =>
    rw [← List.singleton_append, ← List.append_assoc] at h ⊢
    rw [List.singleton_append, List.foldlM_cons]
    by_cases hfirst : (givenOnce (before ++ [i])).Nodup
    · rw [tell_after hfirst]
      exact ih (before ++ [i]) hfirst h
    · rw [givenOnce_append, givenOnce_single] at hfirst
      cases honce : i.once? with
      | none =>
        rw [honce, Option.toList_none, List.append_nil] at hfirst
        exact absurd hbefore hfirst
      | some flag =>
        rw [honce, Option.toList_some, List.nodup_append] at hfirst
        have hgiven : flag ∈ givenOnce before := by
          by_contra hnew
          exact hfirst ⟨hbefore, by simp, by rintro a ha b hb rfl; simp_all⟩
        refine ⟨flag, ?_, by rw [tell_after_given honce hgiven]; rfl⟩
        rw [givenOnce_append, givenOnce_append, givenOnce_single, honce, Option.toList_some,
          List.duplicate_iff_two_le_count, List.count_append, List.count_append]
        have hcount := List.count_pos_iff.2 hgiven
        simp
        omega

/-- The options that say where the document goes, in their order. -/
def ends (given : List Flag) : List Flag := given.filter fun f => f = .output || f = .stdout

/-- What is made of a reading in the end: options, unless two of them exclude each other. -/
def conclude (r : Reading) : Except Interruption Options :=
  match ends r.given with
  | first :: second :: _ => .error (.refused (.conflict first second))
  | _ => .ok r.options

theorem finish_eq (r : Reading) : r.finish = r.settle >>= conclude := rfl

/-- Two options that say where the document goes are the two that exclude each other. -/
theorem clash_of_ends {given : List Flag} {first second : Flag} {rest : List Flag}
    (hnodup : given.Nodup) (h : ends given = first :: second :: rest) :
    Clash given (.conflict first second) ∧ .stdout ∈ given ∧ .output ∈ given := by
  have hsub : [first, second].Sublist given := by
    have hfront : [first, second].Sublist (ends given) := by
      rw [h]
      exact ((List.nil_sublist rest).cons_cons second).cons_cons first
    exact hfront.trans List.filter_sublist
  have hne : first ≠ second := by
    have := hsub.nodup hnodup
    simpa using this
  have hmem : ∀ flag ∈ [first, second], flag = .output ∨ flag = .stdout := by
    intro flag hflag
    have : flag ∈ ends given := by
      rw [h]
      exact List.mem_append_left rest hflag
    simpa using (List.mem_filter.1 this).2
  have hfirst := hmem first (by simp)
  have hsecond := hmem second (by simp)
  rcases hfirst with rfl | rfl <;> rcases hsecond with rfl | rfl
  · exact absurd rfl hne
  · exact ⟨.outputFirst hsub, hsub.subset (by simp), hsub.subset (by simp)⟩
  · exact ⟨.stdoutFirst hsub, hsub.subset (by simp), hsub.subset (by simp)⟩
  · exact absurd rfl hne

theorem conclude_after (h : Compatible words) : (after words).conclude = .ok (asked words) := by
  unfold conclude
  split
  · next hends => exact absurd (clash_of_ends h.once hends).2 h.one_end
  · rfl

/-- Where the document is to be printed and saved, that is the mistake. -/
theorem conclude_after_of_both (hnodup : (givenOnce words).Nodup)
    (h : .stdout ∈ givenOnce words ∧ .output ∈ givenOnce words) :
    ∃ e, Clash (givenOnce words) e ∧ (after words).conclude = .error (.refused e) := by
  unfold conclude
  split
  · next hends => exact ⟨_, (clash_of_ends hnodup hends).1, rfl⟩
  · next hfew =>
    have hstdout : Flag.stdout ∈ ends (after words).given := List.mem_filter.2 ⟨h.1, rfl⟩
    have houtput : Flag.output ∈ ends (after words).given := List.mem_filter.2 ⟨h.2, rfl⟩
    match hends : ends (after words).given with
    | [] =>
      rw [hends] at hstdout
      cases hstdout
    | [flag] =>
      rw [hends, List.mem_singleton] at hstdout houtput
      cases hstdout.trans houtput.symm
    | first :: second :: rest => exact absurd hends (hfew first second rest)

end Reading

/-! ### Arguments in any order -/

/-- Reading the arguments of wordings is telling the wordings, one after the other. -/
theorem ofArguments_eq (hwords : ∀ i ∈ words, i.Proper) :
    Options.ofArguments (words.flatMap Wording.arguments) =
      words.foldlM Reading.tell (Reading.after []) >>= Reading.conclude := by
  have hstart : Reading.start.settle = .ok (Reading.after []) := rfl
  have htold := Reading.foldlM_words (r := Reading.start) rfl hwords
  rw [hstart] at htold
  rw [Options.ofArguments]
  simp only [Reading.finish_eq]
  rw [← bind_assoc, htold]
  rfl

theorem ofArguments_of_compatible (hwords : ∀ i ∈ words, i.Proper) (h : Compatible words) :
    Options.ofArguments (words.flatMap Wording.arguments) = .ok (asked words) := by
  have htold := Reading.foldlM_tell [] words h.once
  rw [ofArguments_eq hwords, htold]
  exact Reading.conclude_after h

theorem ofArguments_of_clash (hwords : ∀ i ∈ words, i.Proper) (h : ¬ Compatible words) :
    ∃ e, Clash (givenOnce words) e ∧
      Options.ofArguments (words.flatMap Wording.arguments) = .error (.refused e) := by
  rw [ofArguments_eq hwords]
  by_cases honce : (givenOnce words).Nodup
  · have hboth : .stdout ∈ givenOnce words ∧ .output ∈ givenOnce words := by
      by_contra hone
      exact h ⟨honce, hone⟩
    obtain ⟨e, hclash, hconclude⟩ := Reading.conclude_after_of_both honce hboth
    have htold := Reading.foldlM_tell [] words honce
    exact ⟨e, hclash, by rw [htold]; exact hconclude⟩
  · obtain ⟨flag, htwice, htold⟩ :=
      Reading.foldlM_tell_of_repeated [] words List.nodup_nil honce
    exact ⟨.repeated flag, .repeated htwice, by rw [htold]; rfl⟩

/-- Options in any wording and any order can be read exactly when none is given again that may be given
only once and the document is not both printed and saved. Then they are what the wordings ask for, in
whatever order these stand. Else the mistake that is told is one of theirs, and the program ends with
two. -/
theorem options_in_any_order (words : List Wording) (hwords : ∀ i ∈ words, i.Proper) :
    ((∃ o, Options.ofArguments (words.flatMap Wording.arguments) = .ok o) ↔ Compatible words) ∧
      (∀ o, Options.ofArguments (words.flatMap Wording.arguments) = .ok o → AsksFor words o) ∧
      (¬ Compatible words → ∃ e, Clash (givenOnce words) e ∧
        Options.ofArguments (words.flatMap Wording.arguments) = .error (.refused e) ∧
        ∀ (w : World) colours sink,
          (w.run colours sink (words.flatMap Wording.arguments)).exitCode = 2) ∧
      ∀ (words' : List Wording) o, words'.Perm words →
        Options.ofArguments (words.flatMap Wording.arguments) = .ok o →
        Options.ofArguments (words'.flatMap Wording.arguments) = .ok o := by
  have hcompatible : ∀ o, Options.ofArguments (words.flatMap Wording.arguments) = .ok o →
      Compatible words := by
    intro o hok
    by_contra h
    obtain ⟨e, -, herror⟩ := ofArguments_of_clash hwords h
    cases hok.symm.trans herror
  have hasks : ∀ o, Options.ofArguments (words.flatMap Wording.arguments) = .ok o →
      AsksFor words o := by
    intro o hok
    have h := hcompatible o hok
    obtain rfl : o = asked words := by
      rw [ofArguments_of_compatible hwords h] at hok
      exact (Except.ok.inj hok).symm
    exact asksFor_asked h.once
  refine ⟨⟨fun ⟨o, hok⟩ => hcompatible o hok, fun h => ⟨_, ofArguments_of_compatible hwords h⟩⟩,
    hasks, ?_, ?_⟩
  · intro h
    obtain ⟨e, hclash, herror⟩ := ofArguments_of_clash hwords h
    refine ⟨e, hclash, herror, ?_⟩
    intro w colours sink
    rw [World.run, herror]
    rfl
  · intro words' o hperm hok
    have h' := (hcompatible o hok).of_perm hperm
    have hwords' : ∀ i ∈ words', i.Proper := fun i hi => hwords i (hperm.mem_iff.1 hi)
    rw [ofArguments_of_compatible hwords' h']
    exact congrArg Except.ok ((asksFor_asked h'.once).unique ((hasks o hok).of_perm hperm))

/-- Options in many wordings: `-vvo`, then the output, `--root=--stdout`, `--sorted`, `-vvv` and
`--verbose`. -/
def manyWords : List Wording :=
  [.lettersOutput 2 .apart [0x6F], .root .attached (Bytes.ofString "--stdout"), .sorted,
    .letters 3, .verbose]

/-- They are read, from the left as from the right, with a root that looks like an option; with
`--stdout` besides they are refused. -/
theorem options_in_any_order_many :
    (∀ i ∈ manyWords, i.Proper) ∧ Compatible manyWords ∧
      (∃ o, Options.ofArguments (manyWords.flatMap Wording.arguments) = .ok o ∧
        AsksFor manyWords o ∧ o.root = some (.ofString "--stdout") ∧ o.verbose = 6 ∧
        Options.ofArguments (manyWords.reverse.flatMap Wording.arguments) = .ok o) ∧
      ¬ Compatible (.stdout :: manyWords) ∧
      ∃ e, Options.ofArguments ((.stdout :: manyWords).flatMap Wording.arguments) =
        .error (.refused e) := by
  have hwords : ∀ i ∈ manyWords, i.Proper := by
    simp [manyWords, Wording.Proper, Wording.Fitting]
    decide
  have hmore : ∀ i ∈ Wording.stdout :: manyWords, i.Proper :=
    List.forall_mem_cons.2 ⟨trivial, hwords⟩
  have hcompatible : Compatible manyWords := ⟨by decide, by decide⟩
  have hclash : ¬ Compatible (.stdout :: manyWords) := fun h => h.one_end (by decide)
  obtain ⟨hiff, hasks, -, hperm⟩ := options_in_any_order manyWords hwords
  obtain ⟨o, hok⟩ := hiff.2 hcompatible
  obtain ⟨e, -, herror, -⟩ := (options_in_any_order _ hmore).2.2.1 hclash
  have hasked := hasks o hok
  have hroot : o.root = some (.ofString "--stdout") := by
    have h := hasked.root
    cases hgiven : o.root with
    | none => rw [hgiven] at h; cases h
    | some path => rw [hgiven] at h; cases h; rfl
  exact ⟨hwords, hcompatible, ⟨o, hok, hasked, hroot, hasked.verbose,
    hperm _ o manyWords.reverse_perm hok⟩, hclash, e, herror⟩

end SourceBundle
