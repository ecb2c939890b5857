import SourceBundle.Proofs.Disk.Making
import SourceBundle.Proofs.Run.Delivery

/-!
What a failing run leaves behind. A writing that fails has written nothing: the file is opened in one
go with its writing, so all that can be left are the directories that were made for it. A run comes
to write only at its end, once its arguments are read and its root is found; when it fails before, or
prints instead of writing, the world is the one before.
-/

namespace SourceBundle.World

variable {w : World} {p : Path} {text : String} {failure : Failure} {colours : Terminal.Colours}
  {sink : Sink} {arguments : List Bytes} {o : Options} {root : Path}

/-- A document that could not be written left nothing but directories above its path. -/
theorem directoriesMade_writeDocument (h : (w.writeDocument p text).2 = .error failure) :
    DirectoriesMade w (w.writeDocument p text).1 (parents p) := by
  have hprepared := w.directoriesMade_prepareParent p
  unfold writeDocument at h ⊢
  split at h
  · next w' failure' heq =>
    rw [heq] at hprepared
    exact hprepared
  · next w' heq =>
    rw [heq] at hprepared
    split at h
    · cases h
    · exact hprepared

/-- A run that prints the document leaves the world as it is. -/
theorem world_printDocument (notices : List Notice) :
    (w.printDocument sink notices text).world = w := by
  unfold printDocument
  split <;> rfl

/-- Only a saved document ends a run with zero, or with the code of a program that was stopped. -/
theorem directoriesMade_saveDocument {notices : List Notice} {c : Collection}
    (h : (w.saveDocument colours sink notices p c).exitCode = 1 ∨
      (w.saveDocument colours sink notices p c).exitCode = 2) :
    DirectoriesMade w (w.saveDocument colours sink notices p c).world (parents p) := by
  cases hwrite : w.writeDocument p c.render with
  | mk written result =>
    cases result with
    | error failure =>
      have hfails : (w.writeDocument p c.render).2 = .error failure := by rw [hwrite]
      have hmade := directoriesMade_writeDocument hfails
      unfold saveDocument
      simp only [hwrite] at hmade ⊢
      exact hmade
    | ok =>
      unfold saveDocument at h
      simp only [hwrite] at h
      cases sink <;> simp [succeed] at h

/-- Refused arguments change nothing. -/
theorem world_run_of_refused {i : Interruption} (h : Options.ofArguments arguments = .error i) :
    (w.run colours sink arguments).world = w := by
  unfold run
  rw [h]
  cases i <;> rfl

/-- A root that is not found changes nothing. -/
theorem world_run_of_no_root (h : Options.ofArguments arguments = .ok o)
    (hroot : w.projectRoot o.root = .error failure) : (w.run colours sink arguments).world = w := by
  unfold run perform
  simp only [h, hroot]
  rfl

/-- A writing that fails loses nothing, and neither does a run: all that stood stands still, and all
that is new are directories above the output path. When the arguments are refused, the root is not
found or the document is to be printed, nothing is new at all. -/
theorem failure_loses_nothing (w : World) :
    (∀ p text failure, (w.writeDocument p text).2 = .error failure →
      DirectoriesMade w (w.writeDocument p text).1 (parents p)) ∧
    ∀ colours sink arguments,
      (w.run colours sink arguments).exitCode = 1 ∨ (w.run colours sink arguments).exitCode = 2 →
      (∀ i, Options.ofArguments arguments = .error i → (w.run colours sink arguments).world = w) ∧
      ∀ o, Options.ofArguments arguments = .ok o →
        DirectoriesMade w (w.run colours sink arguments).world (parents (w.outputPath o.output)) ∧
        (o.stdout = true ∨ (∃ failure, w.projectRoot o.root = .error failure) →
          (w.run colours sink arguments).world = w) := by
  refine ⟨fun p text failure => directoriesMade_writeDocument, ?_⟩
  intro colours sink arguments hcode
  refine ⟨fun i => world_run_of_refused, ?_⟩
  intro o harguments
  cases hroot : w.projectRoot o.root with
  | error failure =>
    have hsame : (w.run colours sink arguments).world = w := world_run_of_no_root harguments hroot
    rw [hsame]
    exact ⟨.refl w _, fun _ => rfl⟩
  | ok root =>
    rw [run_eq harguments hroot] at hcode ⊢
    cases hstdout : o.stdout with
    | true =>
      rw [if_pos rfl, world_printDocument]
      exact ⟨.refl w _, fun _ => rfl⟩
    | false =>
      rw [hstdout, if_neg Bool.false_ne_true] at hcode
      rw [if_neg Bool.false_ne_true]
      exact ⟨directoriesMade_saveDocument hcode, by simp⟩

/-- What `--output=n/s/../../b.c/x` asks for. -/
def unwritableOptions : Options :=
  { Options.none with output := some (.ofString "n/s/../../b.c/x") }

/-- On the way to a file below the file `b.c` the directories `n` and `n/s` are made and stay. A root
that leads nowhere and arguments that cannot be read change nothing. -/
theorem failure_loses_nothing_below_file :
    DirectoriesMade sample
        (sample.writeDocument (.ofString "n/s/../../b.c/x") "text").1
        (parents (.ofString "n/s/../../b.c/x")) ∧
      (sample.run ⟨false, false⟩ .open [Bytes.ofString "--output=n/s/../../b.c/x"]).exitCode = 2 ∧
      (sample.run ⟨false, false⟩ .open
        [Bytes.ofString "--output=n/s/../../b.c/x"]).world.isDirectory (.ofString "n/s") = true ∧
      DirectoriesMade sample
        (sample.run ⟨false, false⟩ .open [Bytes.ofString "--output=n/s/../../b.c/x"]).world
        (parents (.ofString "n/s/../../b.c/x")) ∧
      (sample.run ⟨false, false⟩ .open [Bytes.ofString "--root=/none"]).exitCode = 1 ∧
      (sample.run ⟨false, false⟩ .open [Bytes.ofString "--root=/none"]).world = sample ∧
      (sample.run ⟨false, false⟩ .open [Bytes.ofString "a"]).exitCode = 2 ∧
      (sample.run ⟨false, false⟩ .open [Bytes.ofString "a"]).world = sample := by
  have hwritten : (sample.writeDocument (.ofString "n/s/../../b.c/x") "text").2 =
      .error (.write (.ofString "n/s/../../b.c") (.os .alreadyExists)) := rfl
  have hcode : (sample.run ⟨false, false⟩ .open
      [Bytes.ofString "--output=n/s/../../b.c/x"]).exitCode = 2 := rfl
  have harguments : Options.ofArguments [Bytes.ofString "--output=n/s/../../b.c/x"] =
      .ok unwritableOptions := rfl
  have hcode' : (sample.run ⟨false, false⟩ .open [Bytes.ofString "--root=/none"]).exitCode = 1 := rfl
  have harguments' : Options.ofArguments [Bytes.ofString "--root=/none"] =
      .ok { unwritableOptions with root := some (.ofString "/none"), output := none } := rfl
  have hroot : sample.projectRoot (some (.ofString "/none")) =
      .error (.setup (.unresolvedRoot (.ofString "/none") (.os .noEntry))) := rfl
  have hcode'' : (sample.run ⟨false, false⟩ .open [Bytes.ofString "a"]).exitCode = 2 := rfl
  obtain ⟨i, hrefused⟩ : ∃ i, Options.ofArguments [Bytes.ofString "a"] = .error i := ⟨_, rfl⟩
  obtain ⟨hwriting, hrun⟩ := failure_loses_nothing sample
  exact ⟨hwriting _ _ _ hwritten, hcode, rfl, ((hrun _ _ _ (.inr hcode)).2 _ harguments).1, hcode',
    ((hrun _ _ _ (.inl hcode')).2 _ harguments').2 (.inr ⟨_, hroot⟩), hcode'',
    (hrun _ _ _ (.inr hcode'')).1 i hrefused⟩

end SourceBundle.World
