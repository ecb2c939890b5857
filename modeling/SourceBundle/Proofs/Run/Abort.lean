import SourceBundle.Proofs.Run.ExitCode

/-!
Runs that are cut off. Every error of a run is turned into an exit code of its own, with one exception:
the line that confirms a saved document is printed without a look at the result, so when standard
output takes nothing the program is stopped on the spot, with the document saved and the code of a
program that was stopped. A document that is printed is written with a look at the result, and there
the same refusal ends the run with one.
-/

namespace SourceBundle.World

variable {w : World} {p root : Path} {text : String} {failure : Failure} {notices : List Notice}
  {colours : Terminal.Colours} {sink : Sink} {report : Report} {arguments : List Bytes} {o : Options}
  {c : Collection}

/-- A run that saves its document: its arguments ask for a file, its root is found, and the writing
succeeds. -/
structure Saves (w : World) (arguments : List Bytes) (o : Options) (root : Path) : Prop where
  parsed : Options.ofArguments arguments = .ok o
  toFile : o.stdout = false
  rooted : w.projectRoot o.root = .ok root
  written : (w.writeDocument (w.outputPath o.output) (w.runCollection o root).render).2 = .ok ()

theorem exitCode_fail_le (w : World) (notices : List Notice) (error : RunError) :
    (w.fail notices error).exitCode ≤ 2 := by
  unfold fail RunError.exitCode
  repeat' split
  all_goals simp

theorem exitCode_answer_le (i : Interruption) : (w.answer colours sink i).exitCode ≤ 2 := by
  cases i <;> simp [answer]

theorem exitCode_printDocument_le : (w.printDocument sink notices text).exitCode ≤ 2 := by
  rw [exitCode_printDocument]
  split <;> omega

/-- A document that could not be written has nothing to confirm. -/
theorem exitCode_saveDocument_of_error
    (h : (w.writeDocument p c.render).2 = .error failure) :
    (w.saveDocument colours sink notices p c).exitCode ≤ 2 := by
  cases hwrite : w.writeDocument p c.render with
  | mk written result =>
    rw [hwrite] at h
    obtain rfl : result = .error failure := h
    unfold saveDocument
    simp only [hwrite]
    exact exitCode_fail_le _ _ _

/-- Where the confirmation cannot be printed, a saved document ends the run on the spot. -/
theorem saveDocument_full (h : (w.writeDocument p c.render).2 = .ok ()) :
    w.saveDocument colours (.full report) notices p c =
      ⟨(w.writeDocument p c.render).1, "",
        notices ++ [.log (.written p c.render.utf8ByteSize)] ++ [.abort (.os .noSpace) report], 101⟩ := by
  cases hwrite : w.writeDocument p c.render with
  | mk written result =>
    rw [hwrite] at h
    obtain rfl : result = .ok () := h
    unfold saveDocument
    simp only [hwrite]

/-- A run that saves its document to confirm it on a full standard output is cut off. -/
theorem Saves.run_full (h : w.Saves arguments o root) :
    w.run colours (.full report) arguments =
      ⟨(w.writeDocument (w.outputPath o.output) (w.runCollection o root).render).1, "",
        w.runNotices o root ++
          [.log (.written (w.outputPath o.output) (w.runCollection o root).render.utf8ByteSize)] ++
          [.abort (.os .noSpace) report], 101⟩ := by
  rw [run_eq h.parsed h.rooted, h.toFile, if_neg Bool.false_ne_true, saveDocument_full h.written]

/-- Every other run ends with zero, one or two. -/
theorem exitCode_le_or_saves (w : World) (colours : Terminal.Colours) (sink : Sink)
    (arguments : List Bytes) :
    (w.run colours sink arguments).exitCode ≤ 2 ∨
      (∃ report, sink = .full report) ∧ ∃ o root, w.Saves arguments o root := by
  cases harguments : Options.ofArguments arguments with
  | error i =>
    left
    unfold run
    rw [harguments]
    exact exitCode_answer_le i
  | ok o =>
    cases hroot : w.projectRoot o.root with
    | error failure =>
      left
      rw [exitCode_of_no_root harguments hroot]
      split <;> omega
    | ok root =>
      rw [run_eq harguments hroot]
      cases hstdout : o.stdout with
      | true =>
        rw [if_pos rfl]
        exact .inl exitCode_printDocument_le
      | false =>
        rw [if_neg Bool.false_ne_true]
        cases hwrite :
          (w.writeDocument (w.outputPath o.output) (w.runCollection o root).render).2 with
        | error failure => exact .inl (exitCode_saveDocument_of_error hwrite)
        | ok =>
          cases sink with
          | «open» =>
            left
            rw [saveDocument_open hwrite]
            exact Nat.zero_le 2
          | full report => exact .inr ⟨⟨report, rfl⟩, o, root, harguments, hstdout, hroot, hwrite⟩

/-- A run ends with zero, one or two, unless standard output takes nothing and the document is to be
confirmed: exactly then the run is cut off, with a code of its own. The document is saved by then, and
the refusal is the last that is noted. -/
theorem run_cut_off (w : World) (colours : Terminal.Colours) (sink : Sink) (arguments : List Bytes) :
    ((w.run colours sink arguments).exitCode ≤ 2 ∨ (w.run colours sink arguments).exitCode = 101) ∧
      ((w.run colours sink arguments).exitCode = 101 ↔
        (∃ report, sink = .full report) ∧ ∃ o root, w.Saves arguments o root) ∧
      ∀ report o root, w.Saves arguments o root →
        (w.run colours (.full report) arguments).world =
            (w.writeDocument (w.outputPath o.output) (w.runCollection o root).render).1 ∧
          (w.run colours (.full report) arguments).stderr.getLast? =
            some (.abort (.os .noSpace) report) := by
  have hcut : (∃ report, sink = .full report) ∧ (∃ o root, w.Saves arguments o root) →
      (w.run colours sink arguments).exitCode = 101 := by
    rintro ⟨⟨report, rfl⟩, o, root, hsaves⟩
    rw [hsaves.run_full]
  refine ⟨(w.exitCode_le_or_saves colours sink arguments).imp_right hcut, ⟨?_, hcut⟩, ?_⟩
  · intro hcode
    rcases w.exitCode_le_or_saves colours sink arguments with hle | hsaves
    · omega
    · exact hsaves
  · intro report o root hsaves
    rw [hsaves.run_full]
    exact ⟨rfl, by simp⟩

/-- A report of nothing but the reason. -/
def bareReport : Report := ⟨"", "\n"⟩

/-- Without arguments the small project is saved, and a full standard output cuts the run off. -/
theorem run_cut_off_sample :
    sample.Saves [] .none (.ofString "/p") ∧
      (sample.run ⟨false, false⟩ (.full bareReport) []).exitCode = 101 ∧
      (sample.run ⟨false, false⟩ (.full bareReport) []).world =
        (sample.writeDocument (sample.outputPath none)
          (sample.runCollection .none (.ofString "/p")).render).1 := by
  have hsaves : sample.Saves [] .none (.ofString "/p") := ⟨rfl, rfl, rfl, rfl⟩
  obtain ⟨-, hiff, hsaved⟩ := run_cut_off sample ⟨false, false⟩ (.full bareReport) []
  exact ⟨hsaves, hiff.2 ⟨⟨_, rfl⟩, _, _, hsaves⟩, (hsaved _ _ _ hsaves).1⟩

/-- So a run need not end with zero, one or two, though all that went wrong is that standard output
takes nothing. -/
theorem exit_code_of_full_output :
    sample.Valid ∧ Options.ofArguments [] = .ok .none ∧
      ¬ ((sample.run ⟨false, false⟩ (.full bareReport) []).exitCode = 0 ∨
        (sample.run ⟨false, false⟩ (.full bareReport) []).exitCode = 1 ∨
        (sample.run ⟨false, false⟩ (.full bareReport) []).exitCode = 2) := by
  have hcode : (sample.run ⟨false, false⟩ (.full bareReport) []).exitCode = 101 := rfl
  refine ⟨⟨Disk.valid_sample, Disk.project, rfl⟩, rfl, ?_⟩
  rw [hcode]
  decide

end SourceBundle.World
