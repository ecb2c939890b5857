import Mathlib.Algebra.BigOperators.Group.List.Basic
import Mathlib.Algebra.Order.Ring.Nat
import Mathlib.Data.List.Duplicate
import SourceBundle.Run

/-!
Options in any wording and in any order. What stands among the arguments is told as a list of
wordings: which option it is, how it is spelled, and where its value stands. Reading the arguments of
such a list comes to the same as taking the wordings one by one, each of them settled before the next;
an option whose value stands apart is only settled later, and what settles it comes first in all that
follows. So nothing hangs on the order but which mistake is told.
-/

namespace SourceBundle

/-- Where the value of an option stands. -/
inductive Stand where
  /-- In the same argument, after the name. -/
  | attached
  /-- In the next argument. -/
  | apart
  deriving DecidableEq, Repr

/-- An option as it is written among the arguments. -/
inductive Wording where
  /-- `--root=` and the path, or `--root` and then the path. -/
  | root (stand : Stand) (path : Bytes)
  /-- `--output=` and the path, or `--output` and then the path. -/
  | output (stand : Stand) (path : Bytes)
  | stdout
  | sorted
  | verbose
  /-- A dash and so many times `v`. -/
  | letters (count : Nat)
  /-- A dash, so many times `v`, then `o` and the path of the output. -/
  | lettersOutput (count : Nat) (stand : Stand) (path : Bytes)
  deriving DecidableEq, Repr

namespace Wording

/-- The arguments by which an option is given. -/
def arguments : Wording → List Bytes
  | .root .attached path => [Bytes.ofString "--root=" ++ path]
  | .root .apart path => [Bytes.ofString "--root", path]
  | .output .attached path => [Bytes.ofString "--output=" ++ path]
  | .output .apart path => [Bytes.ofString "--output", path]
  | .stdout => [Bytes.ofString "--stdout"]
  | .sorted => [Bytes.ofString "--sorted"]
  | .verbose => [Bytes.ofString "--verbose"]
  | .letters count => [Bytes.ofString "-" ++ List.replicate count 0x76]
  | .lettersOutput count .attached path =>
    [Bytes.ofString "-" ++ (List.replicate count 0x76 ++ (Bytes.ofString "o" ++ path))]
  | .lettersOutput count .apart path =>
    [Bytes.ofString "-" ++ (List.replicate count 0x76 ++ Bytes.ofString "o"), path]

/-- A value that can stand there: it is not empty, and apart from its option it does not begin with a
dash. -/
def Fitting (stand : Stand) (path : Bytes) : Prop :=
  path ≠ [] ∧ (stand = .apart → path.head? ≠ some 0x2D)

/-- A wording that says what it means: its value can stand where it does, one that is attached to a
letter does not begin with an equals sign, and a bundle has a letter. -/
def Proper : Wording → Prop
  | .root stand path => Fitting stand path
  | .output stand path => Fitting stand path
  | .letters count => 1 ≤ count
  | .lettersOutput _ stand path =>
    Fitting stand path ∧ (stand = .attached → path.head? ≠ some Argument.equals)
  | _ => True

/-- The option, if it is one that may be given only once. -/
def once? : Wording → Option Flag
  | .root _ _ => some .root
  | .output _ _ => some .output
  | .stdout => some .stdout
  | .sorted => some .sorted
  | .lettersOutput _ _ _ => some .output
  | _ => none

/-- The root that is given. -/
def root? : Wording → Option Path
  | .root _ path => some ⟨path⟩
  | _ => none

/-- The output that is given. -/
def output? : Wording → Option Path
  | .output _ path => some ⟨path⟩
  | .lettersOutput _ _ path => some ⟨path⟩
  | _ => none

/-- How often more verbosity is asked for. -/
def verbosity : Wording → Nat
  | .verbose => 1
  | .letters count => count
  | .lettersOutput count _ _ => count
  | _ => 0

end Wording

/-- The options among the wordings that may be given only once, in their order. -/
def givenOnce (words : List Wording) : List Flag := words.filterMap Wording.once?

/-- No option that may be given only once is given twice, and the document is not both printed and
saved. -/
structure Compatible (words : List Wording) : Prop where
  once : (givenOnce words).Nodup
  one_end : ¬ (.stdout ∈ givenOnce words ∧ .output ∈ givenOnce words)

/-- What wordings ask for: the values are those that are given, a flag is set when it is given, and the
verbosity is that of all together, as far as it goes. -/
structure AsksFor (words : List Wording) (o : Options) : Prop where
  root : words.filterMap Wording.root? = o.root.toList
  output : words.filterMap Wording.output? = o.output.toList
  stdout : o.stdout = true ↔ Wording.stdout ∈ words
  sorted : o.sorted = true ↔ Wording.sorted ∈ words
  verbose : o.verbose = min maxVerbose (words.map Wording.verbosity).sum

/-- The mistakes that there are in options given that way: one is given twice, or the document is to be
printed and saved, the option given first named first. -/
inductive Clash (given : List Flag) : UsageError → Prop
  | repeated {flag : Flag} (twice : List.Duplicate flag given) : Clash given (.repeated flag)
  | outputFirst (both : [.output, .stdout].Sublist given) : Clash given (.conflict .output .stdout)
  | stdoutFirst (both : [.stdout, .output].Sublist given) : Clash given (.conflict .stdout .output)

/-! ### The forms of arguments -/

namespace Argument

theorem ofBytes_plain {text : Bytes} (h : text.head? ≠ some 0x2D) : ofBytes text = .plain text := by
  unfold ofBytes
  split <;> simp_all

theorem ofBytes_bundle {b : UInt8} {rest : Bytes} (h : b ≠ 0x2D) :
    ofBytes (0x2D :: b :: rest) = .bundle (b :: rest) := by
  unfold ofBytes
  split <;> simp_all

end Argument

namespace Reading

variable {r r' : Reading} {i : Wording} {words before : List Wording}

/-! ### One wording -/

/-- A reading in which nothing waits to be settled. -/
structure Settled (r : Reading) : Prop where
  pending : r.pending = none
  escaped : r.escaped = false

theorem Settled.settle (h : r.Settled) : r.settle = .ok r := by
  unfold Reading.settle
  rw [h.pending]

/-- Verbosity raised so many times. -/
def raised : Nat → Nat → Nat
  | 0, verbose => verbose
  | count + 1, verbose => raised count (min maxVerbose (verbose + 1))

/-- The options after one more wording. -/
def put : Wording → Options → Options
  | .root _ path, o => { o with root := some ⟨path⟩ }
  | .output _ path, o => { o with output := some ⟨path⟩ }
  | .stdout, o => { o with stdout := true }
  | .sorted, o => { o with sorted := true }
  | .verbose, o => { o with verbose := raised 1 o.verbose }
  | .letters count, o => { o with verbose := raised count o.verbose }
  | .lettersOutput count _ path, o =>
    { o with output := some ⟨path⟩, verbose := raised count o.verbose }

/-- Takes a whole wording at once. -/
def tell (r : Reading) (i : Wording) : Result := do
  let r ← i.once?.elim (.ok r) r.note
  .ok { r with options := put i r.options }

theorem note_eq (flag : Flag) :
    r.note flag =
      if flag ∈ r.given then refuse (.repeated flag)
      else .ok { r with given := r.given ++ [flag] } := rfl

theorem assign_eq {flag : Flag} {value : Bytes} (h : value ≠ []) :
    r.assign flag (some value) = (fun r => r.store flag value) <$> r.note flag := by
  have hempty : value.isEmpty = false := by simpa using h
  rw [assign, note_eq]
  split
  · rfl
  · simp only [bind, Except.bind, hempty]
    rfl

/-- Settling leaves nothing to settle. -/
theorem settled_of_settle (hr : r.escaped = false) (h : r.settle = .ok r') : r'.Settled := by
  unfold settle at h
  split at h
  · next hpending =>
    obtain ⟨rfl⟩ := h
    exact ⟨hpending, hr⟩
  · next flag value hpending =>
    cases value with
    | none => cases h
    | some value =>
      rw [assign, note_eq] at h
      split at h
      · cases h
      · simp only [bind, Except.bind] at h
        split at h
        · cases h
        · obtain ⟨rfl⟩ := h
          cases flag <;> exact ⟨rfl, hr⟩

theorem settled_tell (hr : r.Settled) (h : r.tell i = .ok r') : r'.Settled := by
  unfold tell at h
  cases honce : i.once? with
  | none =>
    rw [honce] at h
    obtain ⟨rfl⟩ := h
    exact ⟨hr.pending, hr.escaped⟩
  | some flag =>
    rw [honce, Option.elim_some, note_eq] at h
    split at h
    · cases h
    · obtain ⟨rfl⟩ := h
      exact ⟨hr.pending, hr.escaped⟩

/-- The letters for verbosity at the beginning of a bundle only raise it. -/
theorem bundle_letters (hr : r.Settled) (count : Nat) (rest : Bytes) :
    r.bundle (List.replicate count 0x76 ++ rest) =
      bundle { r with options := { r.options with verbose := raised count r.options.verbose } }
        rest := by
  induction count generalizing r with
  | zero => rfl
  | succ count ih =>
    have hflip : r.flip .verbose = .ok { r with options := { r.options with
        verbose := min maxVerbose (r.options.verbose + 1) } } := by
      rw [Reading.flip, hr.settle]
      rfl
    rw [List.replicate_succ, List.cons_append]
    change (r.flip .verbose >>= fun r => r.bundle (List.replicate count 0x76 ++ rest)) = _
    rw [hflip]
    exact ih ⟨hr.pending, hr.escaped⟩

/-- An argument that names an option: before all else, what waits is settled. -/
def Opens (text : Bytes) : Prop :=
  ∃ act : Reading → Result, ∀ r : Reading, r.escaped = false → r.take text = r.settle >>= act

theorem opens_of_flip {text : Bytes} (flag : Flag)
    (h : ∀ r : Reading, r.escaped = false → r.take text = r.flip flag) : Opens text :=
  ⟨_, fun r hr => h r hr⟩

theorem opens_of_attach {text : Bytes} (flag : Flag) (value : Bytes)
    (h : ∀ r : Reading, r.escaped = false → r.take text = r.attach flag value) : Opens text :=
  ⟨_, fun r hr => h r hr⟩

theorem opens_of_await {text : Bytes} (flag : Flag)
    (h : ∀ r : Reading, r.escaped = false → r.take text = r.await flag) : Opens text :=
  ⟨_, fun r hr => h r hr⟩

theorem take_bundle (hr : r.escaped = false) {b : UInt8} (hb : b ≠ 0x2D) (rest : Bytes) :
    r.take (0x2D :: b :: rest) = r.bundle (b :: rest) := by
  simp only [take, hr, Argument.ofBytes_bundle hb, Bool.false_eq_true, if_false]

/-- A bundle opens with its first letter. -/
theorem opens_letters (count : Nat) (rest : Bytes) :
    Opens (Bytes.ofString "-" ++ (List.replicate (count + 1) 0x76 ++ rest)) := by
  have htake : ∀ r : Reading, r.escaped = false →
      r.take (Bytes.ofString "-" ++ (List.replicate (count + 1) 0x76 ++ rest)) =
        r.flip .verbose >>= fun r => r.bundle (List.replicate count 0x76 ++ rest) := fun r hr =>
    take_bundle hr (by decide) _
  exact ⟨_, fun r hr => (htake r hr).trans (bind_assoc r.settle _ _)⟩

theorem opens_o (rest : Bytes) : Opens (Bytes.ofString "-" ++ (Bytes.ofString "o" ++ rest)) := by
  cases rest with
  | nil => exact opens_of_await .output fun r hr => take_bundle hr (by decide) _
  | cons b rest =>
    exact opens_of_attach .output (if b = Argument.equals then rest else b :: rest)
      fun r hr => take_bundle hr (by decide) _

theorem opens_arguments (hi : i.Proper) : ∃ text rest, i.arguments = text :: rest ∧ Opens text := by
  cases i with
  | root stand path =>
    cases stand with
    | attached =>
      exact ⟨_, _, rfl, opens_of_attach .root path fun r hr => by rw [take, hr]; rfl⟩
    | apart => exact ⟨_, _, rfl, opens_of_await .root fun r hr => by rw [take, hr]; rfl⟩
  | output stand path =>
    cases stand with
    | attached =>
      exact ⟨_, _, rfl, opens_of_attach .output path fun r hr => by rw [take, hr]; rfl⟩
    | apart => exact ⟨_, _, rfl, opens_of_await .output fun r hr => by rw [take, hr]; rfl⟩
  | stdout => exact ⟨_, _, rfl, opens_of_flip .stdout fun r hr => by rw [take, hr]; rfl⟩
  | sorted => exact ⟨_, _, rfl, opens_of_flip .sorted fun r hr => by rw [take, hr]; rfl⟩
  | verbose => exact ⟨_, _, rfl, opens_of_flip .verbose fun r hr => by rw [take, hr]; rfl⟩
  | letters count =>
    obtain ⟨more, rfl⟩ := Nat.exists_eq_add_of_le' hi
    refine ⟨_, _, rfl, ?_⟩
    have hopens := opens_letters more []
    rwa [List.append_nil] at hopens
  | lettersOutput count stand path =>
    have hopens : ∀ rest, Opens (Bytes.ofString "-" ++
        (List.replicate count 0x76 ++ (Bytes.ofString "o" ++ rest))) := by
      intro rest
      cases count with
      | zero => exact opens_o rest
      | succ count => exact opens_letters count _
    cases stand with
    | attached => exact ⟨_, _, rfl, hopens path⟩
    | apart => exact ⟨_, _, rfl, by simpa using hopens []⟩

/-- Whatever a wording says comes after what waits is settled. -/
theorem foldlM_arguments_eq (hr : r.escaped = false) (hi : i.Proper) :
    i.arguments.foldlM take r = r.settle >>= fun r => i.arguments.foldlM take r := by
  obtain ⟨text, rest, harguments, act, hact⟩ := opens_arguments hi
  rw [harguments]
  simp only [List.foldlM_cons]
  rw [hact r hr, bind_assoc]
  cases hsettle : r.settle with
  | error e => rfl
  | ok r' =>
    have hsettled := settled_of_settle hr hsettle
    have hthere := hact r' hsettled.escaped
    rw [hsettled.settle] at hthere
    change (act r' >>= fun r => rest.foldlM take r) = (r'.take text >>= fun r => rest.foldlM take r)
    rw [hthere]
    rfl

theorem foldlM_single (text : Bytes) : [text].foldlM take r = r.take text := by
  rw [List.foldlM_cons]
  exact bind_pure _

/-- A wording whose value is attached, or that needs none, is told by its one argument. -/
theorem settle_of_tell (hr : r.Settled) {result : Result} (h : result = r.tell i) :
    (result >>= settle) = r.tell i ∧ ∀ r', result = .ok r' → r'.escaped = false := by
  cases htell : r.tell i with
  | error e =>
    rw [h, htell]
    exact ⟨rfl, fun r' h => by cases h⟩
  | ok there =>
    have hthere := settled_tell hr htell
    rw [h, htell]
    refine ⟨hthere.settle, ?_⟩
    rintro r' ⟨rfl⟩
    exact hthere.escaped

/-- An argument that is no option is the value of the option that waits for one. -/
theorem take_awaited (hr : r.escaped = false) (flag : Flag) {text : Bytes}
    (h : text.head? ≠ some 0x2D) :
    take { r with pending := some (flag, none) } text =
      .ok { r with pending := some (flag, some text) } := by
  simp only [take, hr, Argument.ofBytes_plain h, plain, Bool.false_eq_true, if_false]

/-- An option that may be given once is noted, and then set. -/
theorem tell_of_once {flag : Flag} (honce : i.once? = some flag) {set : Reading → Reading}
    (hset : ∀ r, set r = { r with options := put i r.options }) : r.tell i = set <$> r.note flag := by
  rw [tell, honce, Option.elim_some]
  cases r.note flag with
  | error e => rfl
  | ok there => exact congrArg Except.ok (hset there).symm

/-- A value in the argument of its option is settled at once. -/
theorem tells_attached {q : Reading} {flag : Flag} {text value : Bytes} (hq : q.Settled)
    (hr : r.Settled) (htake : r.take text = q.attach flag value)
    (hassign : q.assign flag (some value) = r.tell i) :
    ([text].foldlM take r >>= settle) = r.tell i ∧
      ∀ r', [text].foldlM take r = .ok r' → r'.escaped = false := by
  refine settle_of_tell hr ?_
  rw [foldlM_single, htake, attach, hq.settle, ← hassign]
  rfl

/-- A value in an argument of its own is settled with what comes next. -/
theorem tells_apart {q : Reading} {flag : Flag} {text value : Bytes} (hq : q.Settled)
    (htake : r.take text = q.await flag) (hvalue : value.head? ≠ some 0x2D)
    (hassign : q.assign flag (some value) = r.tell i) :
    ([text, value].foldlM take r >>= settle) = r.tell i ∧
      ∀ r', [text, value].foldlM take r = .ok r' → r'.escaped = false := by
  have htaken : [text, value].foldlM take r = .ok { q with pending := some (flag, some value) } := by
    rw [List.foldlM_cons, htake, await, hq.settle]
    change [value].foldlM take { q with pending := some (flag, none) } = _
    rw [foldlM_single]
    exact take_awaited hq.escaped flag hvalue
  have hback : { q with pending := none } = q := by rw [← hq.pending]
  rw [htaken]
  constructor
  · change assign { q with pending := none } flag (some value) = _
    rw [hback, hassign]
  · rintro r' ⟨rfl⟩
    exact hq.escaped

/-- An option without a value. -/
theorem tells_flip (flag : Flag) {text : Bytes} (hr : r.Settled) (htake : r.take text = r.flip flag)
    (hflip : r.flip flag = r.tell i) :
    ([text].foldlM take r >>= settle) = r.tell i ∧
      ∀ r', [text].foldlM take r = .ok r' → r'.escaped = false := by
  refine settle_of_tell hr ?_
  rw [foldlM_single, htake, hflip]

/-- Taken from a reading in which nothing waits, the arguments of a wording tell what it says. -/
theorem foldlM_arguments_settled (hr : r.Settled) (hi : i.Proper) :
    (i.arguments.foldlM take r >>= settle) = r.tell i ∧
      ∀ r', i.arguments.foldlM take r = .ok r' → r'.escaped = false := by
  cases i with
  | root stand path =>
    obtain ⟨hpath, hdash⟩ := hi
    have hassign : r.assign .root (some path) = r.tell (.root stand path) := by
      rw [assign_eq hpath]
      exact Eq.symm (tell_of_once rfl fun _ => rfl)
    cases stand with
    | attached => exact tells_attached hr hr (by rw [take, hr.escaped]; rfl) hassign
    | apart => exact tells_apart hr (by rw [take, hr.escaped]; rfl) (hdash rfl) hassign
  | output stand path =>
    obtain ⟨hpath, hdash⟩ := hi
    have hassign : r.assign .output (some path) = r.tell (.output stand path) := by
      rw [assign_eq hpath]
      exact Eq.symm (tell_of_once rfl fun _ => rfl)
    cases stand with
    | attached => exact tells_attached hr hr (by rw [take, hr.escaped]; rfl) hassign
    | apart => exact tells_apart hr (by rw [take, hr.escaped]; rfl) (hdash rfl) hassign
  | stdout =>
    refine tells_flip .stdout hr (by rw [take, hr.escaped]; rfl) ?_
    rw [Reading.flip, hr.settle]
    exact Eq.symm (tell_of_once rfl fun _ => rfl)
  | sorted =>
    refine tells_flip .sorted hr (by rw [take, hr.escaped]; rfl) ?_
    rw [Reading.flip, hr.settle]
    exact Eq.symm (tell_of_once rfl fun _ => rfl)
  | verbose =>
    refine tells_flip .verbose hr (by rw [take, hr.escaped]; rfl) ?_
    rw [Reading.flip, hr.settle]
    rfl
  | letters count =>
    refine settle_of_tell hr ?_
    obtain ⟨more, rfl⟩ := Nat.exists_eq_add_of_le' hi
    have htake : r.take (Bytes.ofString "-" ++ List.replicate (more + 1) 0x76) =
        r.bundle (List.replicate (more + 1) 0x76) := take_bundle hr.escaped (by decide) _
    have hletters := bundle_letters hr (more + 1) []
    rw [List.append_nil] at hletters
    rw [Wording.arguments, foldlM_single, htake, hletters]
    rfl
  | lettersOutput count stand path =>
    obtain ⟨⟨hpath, hdash⟩, hequals⟩ := hi
    have htake : ∀ rest, r.take (Bytes.ofString "-" ++
        (List.replicate count 0x76 ++ (Bytes.ofString "o" ++ rest))) =
        r.bundle (List.replicate count 0x76 ++ (Bytes.ofString "o" ++ rest)) := by
      intro rest
      cases count with
      | zero => exact take_bundle hr.escaped (by decide) _
      | succ count => exact take_bundle hr.escaped (by decide) _
    generalize hq : { r with options :=
      { r.options with verbose := raised count r.options.verbose } } = q
    have hsettled : q.Settled := by
      rw [← hq]
      exact ⟨hr.pending, hr.escaped⟩
    have hassign : q.assign .output (some path) = r.tell (.lettersOutput count stand path) := by
      rw [assign_eq hpath, tell_of_once rfl fun r => rfl, note_eq, note_eq, ← hq]
      dsimp only
      split <;> rfl
    cases stand with
    | attached =>
      refine tells_attached hsettled hr ?_ hassign
      rw [htake, bundle_letters hr, hq]
      cases path with
      | nil => exact absurd rfl hpath
      | cons b rest =>
        have hb : b ≠ Argument.equals := by simpa using hequals rfl
        change q.attach .output (if b = Argument.equals then rest else b :: rest) = _
        rw [if_neg hb]
    | apart =>
      refine tells_apart hsettled ?_ (hdash rfl) hassign
      have hopen := htake []
      rw [List.append_nil] at hopen
      rw [hopen, bundle_letters hr, hq]
      rfl

/-! ### All wordings -/

/-- Reading the arguments of wordings and settling what waits comes to telling the wordings. -/
theorem foldlM_words (hr : r.escaped = false) (hwords : ∀ i ∈ words, i.Proper) :
    ((words.flatMap Wording.arguments).foldlM take r >>= settle) =
      r.settle >>= fun r => words.foldlM tell r := by
  induction words generalizing r with
  | nil => exact (bind_pure r.settle).symm
  | cons i words ih =>
    obtain ⟨hi, hwords⟩ := List.forall_mem_cons.1 hwords
    rw [List.flatMap_cons, List.foldlM_append, foldlM_arguments_eq hr hi]
    cases hsettle : r.settle with
    | error e => rfl
    | ok there =>
      obtain ⟨htells, hescaped⟩ :=
        foldlM_arguments_settled (settled_of_settle hr hsettle) hi
      change (i.arguments.foldlM take there >>= _ >>= settle) = (i :: words).foldlM tell there
      rw [List.foldlM_cons, ← htells]
      cases htaken : i.arguments.foldlM take there with
      | error e => rfl
      | ok next => exact ih (hescaped next htaken) hwords

end Reading

end SourceBundle
