import SourceBundle.Proofs.Run.Abort

/-!
What verbosity does to a run. It is read in two places only: the limit of the log and two records that
print it. So a run does the same at every verbosity, and notes the same, but for the numbers in these
two records; and since a lower verbosity shows fewer levels, what it shows is what a higher one shows
with the records taken out that are too detailed. This holds of every end that a run can come to.
-/

namespace SourceBundle

/-! ### Notices with another verbosity -/

namespace Notice

/-- A notice as it is in a run of another verbosity. -/
def asVerbose (verbosity : Nat) : Notice → Notice
  | .log (.loggerReady _) => .log (.loggerReady (.ofVerbosity verbosity))
  | .log (.argumentsRead o) => .log (.argumentsRead { o with verbose := verbosity })
  | notice => notice

/-- Whether a notice prints the verbosity. -/
def tellsVerbosity : Notice → Bool
  | .log (.loggerReady _) => true
  | .log (.argumentsRead _) => true
  | _ => false

/-- Whether a notice shows when the log goes down to `limit`; what is no record of the log always
does. -/
def shown (limit : Level) : Notice → Bool
  | .log event => event.record.level.shows limit
  | _ => true

/-- What a notice prints when it shows. -/
def fullText (colours : Terminal.Colours) : Notice → String := text colours .trace

variable {colours : Terminal.Colours} {limit limit' : Level} {verbosity : Nat} {n : Notice}

theorem asVerbose_of_quiet (h : n.tellsVerbosity = false) : n.asVerbose verbosity = n := by
  cases n with
  | log event => cases event <;> first | rfl | cases h
  | _ => rfl

/-- A notice shows at another verbosity where it did. -/
theorem shown_asVerbose : (n.asVerbose verbosity).shown limit = n.shown limit := by
  cases n with
  | log event => cases event <;> rfl
  | _ => rfl

theorem tellsVerbosity_asVerbose :
    (n.asVerbose verbosity).tellsVerbosity = n.tellsVerbosity := by
  cases n with
  | log event => cases event <;> rfl
  | _ => rfl

/-- What is not told by the verbosity picks the same notices at another one. -/
theorem filter_map_asVerbose {p : Notice → Bool} (hp : ∀ n, p (asVerbose verbosity n) = p n)
    (notices : List Notice) :
    (notices.map (asVerbose verbosity)).filter p = (notices.filter p).map (asVerbose verbosity) := by
  rw [List.filter_map]
  exact congrArg _ (List.filter_congr fun n _ => hp n)

/-- The text of a notice is there or not. -/
theorem text_eq : n.text colours limit = if n.shown limit then n.fullText colours else "" := by
  cases n with
  | log event =>
    have htrace : event.record.level.shows .trace = true := by
      cases event.record.level <;> rfl
    rw [fullText, text_log, text_log, htrace, if_pos rfl]
    rfl
  | _ => rfl

/-- What shows shows in every log that is more detailed. -/
theorem shown_of_le (h : limit.rank ≤ limit'.rank) (hn : n.shown limit = true) :
    n.shown limit' = true := by
  cases n with
  | log event =>
    have hlevel : event.record.level.rank ≤ limit.rank := by simpa [shown, Level.shows] using hn
    simpa [shown, Level.shows] using Nat.le_trans hlevel h
  | _ => rfl

end Notice

/-- The levels of the log go with the verbosity, up to the last one. -/
theorem Level.rank_ofVerbosity (verbosity : Nat) :
    (Level.ofVerbosity verbosity).rank = min verbosity 3 := by
  match verbosity with
  | 0 | 1 | 2 => rfl
  | verbosity + 3 => exact (Nat.min_eq_right (Nat.le_add_left 3 verbosity)).symm

/-- Standard error is the text of the notices that show. -/
theorem errorText_eq (colours : Terminal.Colours) (limit : Level) (notices : List Notice) :
    errorText colours limit notices =
      String.join ((notices.filter (Notice.shown limit)).map (Notice.fullText colours)) := by
  induction notices with
  | nil => rfl
  | cons n notices ih =>
    have hcons : errorText colours limit (n :: notices) =
        n.text colours limit ++ errorText colours limit notices := by
      rw [errorText, List.map_cons, String.join_cons, errorText]
    rw [hcons, ih, Notice.text_eq]
    cases hshown : n.shown limit <;> simp [hshown]

/-! ### A run with another verbosity -/

/-- An outcome as it is at another verbosity. -/
def Outcome.asVerbose (verbosity : Nat) (r : Outcome) : Outcome :=
  { r with stderr := r.stderr.map (Notice.asVerbose verbosity) }

namespace World

variable {w : World} {colours : Terminal.Colours} {sink : Sink} {verbosity : Nat}

theorem succeed_asVerbose (stdout : String) (notices : List Notice) :
    w.succeed stdout (notices.map (Notice.asVerbose verbosity)) =
      (w.succeed stdout notices).asVerbose verbosity := by
  simp [succeed, Outcome.asVerbose, Notice.asVerbose]

theorem fail_asVerbose (notices : List Notice) (error : RunError) :
    w.fail (notices.map (Notice.asVerbose verbosity)) error =
      (w.fail notices error).asVerbose verbosity := by
  simp [fail, Outcome.asVerbose, Notice.asVerbose]

theorem printDocument_asVerbose (notices : List Notice) (text : String) :
    w.printDocument sink (notices.map (Notice.asVerbose verbosity)) text =
      (w.printDocument sink notices text).asVerbose verbosity := by
  unfold printDocument
  split
  · exact succeed_asVerbose text notices
  · exact fail_asVerbose notices _

theorem saveDocument_asVerbose (notices : List Notice) (path : Path) (c : Collection) :
    w.saveDocument colours sink (notices.map (Notice.asVerbose verbosity)) path c =
      (w.saveDocument colours sink notices path c).asVerbose verbosity := by
  have hwritten : notices.map (Notice.asVerbose verbosity) ++
      [Notice.log (.written path c.render.utf8ByteSize)] =
      (notices ++ [Notice.log (.written path c.render.utf8ByteSize)]).map
        (Notice.asVerbose verbosity) := by
    simp [Notice.asVerbose]
  unfold saveDocument
  cases hwrite : w.writeDocument path c.render with
  | mk written result =>
    cases result with
    | error failure =>
      simp only [hwrite]
      exact fail_asVerbose notices _
    | ok =>
      simp only [hwrite, hwritten]
      cases sink with
      | «open» => exact succeed_asVerbose _ _
      | full => simp [Outcome.asVerbose, Notice.asVerbose]

/-- What is noted of the walk has nothing of the verbosity. -/
theorem runNotices_asVerbose (o : Options) (root : Path) :
    w.runNotices { o with verbose := verbosity } root =
      (w.runNotices o root).map (Notice.asVerbose verbosity) := by
  have hlog : ∀ events : List Event, (∀ e ∈ events, (Notice.log e).tellsVerbosity = false) →
      (events.map Notice.log).map (Notice.asVerbose verbosity) = events.map Notice.log := by
    intro events hquiet
    rw [List.map_map]
    exact List.map_congr_left fun e he => Notice.asVerbose_of_quiet (hquiet e he)
  have hwalk : ∀ e ∈ walkEvents root (w.runVisits o root), (Notice.log e).tellsVerbosity = false := by
    intro e he
    rcases List.mem_append.1 he with hfirst | hlast
    · rcases List.mem_cons.1 hfirst with rfl | hvisit
      · rfl
      · obtain ⟨v, -, rfl⟩ := List.mem_map.1 hvisit
        rfl
    · rw [List.mem_singleton.1 hlast]
      rfl
  have hskipped : ((w.runCollection o root).failures.map Notice.skipped).map
      (Notice.asVerbose verbosity) = (w.runCollection o root).failures.map Notice.skipped := by
    rw [List.map_map]
    rfl
  rw [runNotices, runNotices, List.map_append, List.map_append, hskipped, hlog _ hwalk]
  rfl

/-- A run does the same at another verbosity, and notes the same but for the verbosity. -/
theorem perform_asVerbose (o : Options) :
    w.perform colours sink { o with verbose := verbosity } =
      (w.perform colours sink o).asVerbose verbosity := by
  unfold perform
  cases hroot : w.projectRoot o.root with
  | error failure =>
    exact fail_asVerbose [.log (.loggerReady (.ofVerbosity o.verbose)), .log (.argumentsRead o)] _
  | ok root =>
    have hnotices : w.runNotices { o with verbose := verbosity } root =
        (w.runNotices o root).map (Notice.asVerbose verbosity) := runNotices_asVerbose o root
    dsimp only
    split
    · exact (congrArg (w.printDocument sink · _) hnotices).trans (printDocument_asVerbose _ _)
    · exact (congrArg (w.saveDocument colours sink · _ _) hnotices).trans
        (saveDocument_asVerbose _ _ _)

/-! ### Two runs -/

variable {arguments arguments' : List Bytes} {o o' : Options}

/-- What a run prints to standard error, item by item. -/
def shownNotices (w : World) (colours : Terminal.Colours) (sink : Sink) (arguments : List Bytes) :
    List Notice :=
  (w.run colours sink arguments).stderr.filter (Notice.shown (logLimit arguments))

theorem errorText_shownNotices (arguments : List Bytes) :
    errorText colours (logLimit arguments) (w.run colours sink arguments).stderr =
      String.join ((w.shownNotices colours sink arguments).map (Notice.fullText colours)) :=
  errorText_eq colours _ _

theorem logLimit_eq (h : Options.ofArguments arguments = .ok o) :
    logLimit arguments = .ofVerbosity o.verbose := by
  rw [logLimit, h]

/-- Options that differ in their verbosity alone give the same run but for the verbosity. -/
theorem run_asVerbose (h : Options.ofArguments arguments = .ok o)
    (h' : Options.ofArguments arguments' = .ok o')
    (hsame : { o with verbose := 0 } = { o' with verbose := 0 }) :
    w.run colours sink arguments = (w.run colours sink arguments').asVerbose o.verbose := by
  have ho : o = { o' with verbose := o.verbose } := by
    cases o
    cases o'
    simp_all
  have hrun : w.run colours sink arguments = w.perform colours sink o := by
    rw [run, h]
  have hrun' : w.run colours sink arguments' = w.perform colours sink o' := by
    rw [run, h']
  rw [hrun, hrun', ← perform_asVerbose, ← ho]

/-- The run of the lower verbosity shows what that of the higher one shows, without the records that are
too detailed. -/
theorem shownNotices_of_le (h : Options.ofArguments arguments = .ok o)
    (h' : Options.ofArguments arguments' = .ok o')
    (hsame : { o with verbose := 0 } = { o' with verbose := 0 }) (hle : o.verbose ≤ o'.verbose) :
    w.shownNotices colours sink arguments =
      ((w.shownNotices colours sink arguments').filter
        (Notice.shown (.ofVerbosity o.verbose))).map (Notice.asVerbose o.verbose) := by
  have hlimit : (Level.ofVerbosity o.verbose).rank ≤ (Level.ofVerbosity o'.verbose).rank := by
    rw [Level.rank_ofVerbosity, Level.rank_ofVerbosity]
    omega
  rw [shownNotices, shownNotices, logLimit_eq h, logLimit_eq h', run_asVerbose h h' hsame,
    Outcome.asVerbose, Notice.filter_map_asVerbose fun _ => Notice.shown_asVerbose,
    List.filter_filter]
  refine congrArg (List.map _) (List.filter_congr fun n _ => ?_)
  cases hshown : n.shown (.ofVerbosity o.verbose) with
  | true => simp [Notice.shown_of_le hlimit hshown]
  | false => rfl

/-- Apart from the records that print the verbosity, nothing is different at another one. -/
theorem filter_quiet_asVerbose (verbosity : Nat) (notices : List Notice) :
    (notices.map (Notice.asVerbose verbosity)).filter (fun n => !n.tellsVerbosity) =
      notices.filter fun n => !n.tellsVerbosity := by
  rw [Notice.filter_map_asVerbose fun n => by rw [Notice.tellsVerbosity_asVerbose]]
  refine (List.map_congr_left fun n hn => ?_).trans (List.map_id _)
  exact Notice.asVerbose_of_quiet (by simpa using (List.mem_filter.1 hn).2)

/-- Verbosity is observation. Of two runs whose arguments ask for the same but for the verbosity, both
print the same to standard output, end with the same code and leave the same world behind. Standard
error of the less verbose one is that of the other, taken item by item, without the records that are
more detailed than its own level, and with its own verbosity in the two records that print it; apart
from these two the items are the same. -/
theorem verbosity_only_observes (w : World) (colours : Terminal.Colours) (sink : Sink)
    (arguments arguments' : List Bytes) (o o' : Options)
    (h : Options.ofArguments arguments = .ok o) (h' : Options.ofArguments arguments' = .ok o')
    (hsame : { o with verbose := 0 } = { o' with verbose := 0 }) :
    let r := w.run colours sink arguments
    let r' := w.run colours sink arguments'
    let shown := w.shownNotices colours sink arguments
    let shown' := w.shownNotices colours sink arguments'
    r.stdout = r'.stdout ∧ r.exitCode = r'.exitCode ∧ r.world = r'.world ∧
      errorText colours (logLimit arguments) r.stderr =
        String.join (shown.map (Notice.fullText colours)) ∧
      errorText colours (logLimit arguments') r'.stderr =
        String.join (shown'.map (Notice.fullText colours)) ∧
      (o.verbose ≤ o'.verbose →
        shown = (shown'.filter (Notice.shown (.ofVerbosity o.verbose))).map
          (Notice.asVerbose o.verbose) ∧
        shown.filter (fun n => !n.tellsVerbosity) =
          (shown'.filter (Notice.shown (.ofVerbosity o.verbose))).filter
            fun n => !n.tellsVerbosity) := by
  intro r r' shown shown'
  have hrun : r = r'.asVerbose o.verbose := run_asVerbose h h' hsame
  refine ⟨by rw [hrun]; rfl, by rw [hrun]; rfl, by rw [hrun]; rfl, errorText_shownNotices arguments,
    errorText_shownNotices arguments', fun hle => ?_⟩
  have hshown : shown = (shown'.filter (Notice.shown (.ofVerbosity o.verbose))).map
      (Notice.asVerbose o.verbose) := shownNotices_of_le h h' hsame hle
  exact ⟨hshown, by rw [hshown, filter_quiet_asVerbose]⟩

/-- Arguments that ask for the whole log. -/
def tracedArguments : List Bytes := [Bytes.ofString "-vvv"]

/-- On the small disk the project is collected in the same way with the whole log as without it, and
warnings and diagnostics are the same. -/
theorem verbosity_only_observes_sample :
    Options.ofArguments [] = .ok .none ∧
      Options.ofArguments tracedArguments = .ok { Options.none with verbose := 3 } ∧
      Options.none.verbose ≤ 3 ∧
      (sample.run ⟨false, false⟩ .open []).stdout =
        (sample.run ⟨false, false⟩ .open tracedArguments).stdout ∧
      (sample.shownNotices ⟨false, false⟩ .open []).filter (fun n => !n.tellsVerbosity) =
        ((sample.shownNotices ⟨false, false⟩ .open tracedArguments).filter
          (Notice.shown (.ofVerbosity Options.none.verbose))).filter fun n => !n.tellsVerbosity := by
  have harguments : Options.ofArguments [] = .ok .none := rfl
  have htraced : Options.ofArguments tracedArguments = .ok { Options.none with verbose := 3 } := by
    decide +kernel
  obtain ⟨hstdout, -, -, -, -, hshown⟩ := verbosity_only_observes sample ⟨false, false⟩ .open []
    tracedArguments _ _ harguments htraced rfl
  exact ⟨harguments, htraced, by decide, hstdout, (hshown (by decide)).2⟩

end World

end SourceBundle
