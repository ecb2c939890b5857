import SourceBundle.Run

/-!
The program itself. It takes a picture of the part of the disk that a run can reach, runs on the
picture, prints what the run prints, and carries over to the disk the directories and the document
that the run has written. Nothing is decided here. Permissions are no part of the picture: what cannot
be looked at is left out of it.
-/

namespace SourceBundle

/-- A picture that grows while the disk is looked at. -/
abbrev Survey := StateT Disk IO

namespace Survey

/-- The names as bytes. -/
def trailOf (names : List String) : List Name := names.map Bytes.ofString

/-- The text of the absolute path through the names. -/
def textOf (names : List String) : String := "/" ++ "/".intercalate names

/-- The names of an absolute path. -/
def namesOf (path : String) : List String := (path.splitOn "/").filter (!·.isEmpty)

/-- Enters a node into the picture. -/
def enter (names : List String) (name : String) (node : Node) : Survey Unit :=
  modify fun disk => disk.put (trailOf names) (Bytes.ofString name) node

/-- What kind of entry stands under a name, a link not followed. -/
def kind? (names : List String) (name : String) : IO (Option IO.FS.FileType) := do
  let entry : IO.FS.DirEntry := ⟨⟨textOf names⟩, name⟩
  try
    return some (← entry.path.symlinkMetadata).type
  catch _ => return none

/-- The bytes of a file; one that cannot be read is taken for empty. -/
def contentOf (path : String) : IO Bytes := do
  try
    return (← IO.FS.readBinFile path).toList
  catch _ => return []

/-- The canonical names of what a link leads to, if it leads anywhere. -/
def targetOf (path : String) : IO (Option (List String × IO.FS.FileType)) := do
  let entry : IO.FS.DirEntry := ⟨⟨path⟩, ""⟩
  try
    let kind := (← entry.root.metadata).type
    return some (namesOf (← IO.FS.realPath path).toString, kind)
  catch _ => return none

/-- A target that no picture holds, for links that lead nowhere. -/
def nowhere : Path := .ofString "/\x01"

mutual

/-- Enters what stands under a name, and for a link also what it leads to; answers with the names of
the directory that is reached, if one is. -/
partial def observe (names : List String) (name : String) : Survey (Option (List String)) := do
  let here := names ++ [name]
  match ← kind? names name with
  | none => return none
  | some .dir =>
    if ((← get).root.at? (trailOf here)).isNone then enter names name (.directory [])
    return some here
  | some .symlink =>
    match ← targetOf (textOf here) with
    | none =>
      enter names name (.link nowhere)
      return none
    | some (target, kind) =>
      enter names name (.link (.ofTrail (trailOf target)))
      let reached ← trace [] target
      if kind matches .file then
        enter target.dropLast (target.getLastD "") (.file (← contentOf (textOf target)))
      return if kind matches .dir then some reached else none
  | some .file =>
    enter names name (.file [])
    return none
  | some .other =>
    enter names name (.device .null)
    return none

/-- Enters all that stands along the names, starting in a directory that is already entered; answers
with the names of the last directory that is reached. -/
partial def trace (names : List String) : List String → Survey (List String)
  | [] => return names
  | "." :: rest => trace names rest
  | ".." :: rest => trace names.dropLast rest
  | name :: rest => do
    match ← observe names name with
    | some reached => trace reached rest
    | none => return names

end

/-- Enters all that stands below a directory, as far as the rules let a walk go. -/
partial def below (rules : Rules) (names : List String) : Survey Unit := do
  let entry : IO.FS.DirEntry := ⟨⟨textOf names⟩, ""⟩
  for found in ← entry.root.readDir do
    let name := found.fileName
    let reached ← observe names name
    match ← kind? names name with
    | some .dir =>
      if !rules.exclusion.excludes name then below rules (reached.getD names)
    | some .file =>
      if rules.inclusion.selects name then
        enter names name (.file (← contentOf (textOf (names ++ [name]))))
    | _ => pure ()

/-- Enters all that a run with these options can reach from the directory `cwd`. -/
def reachable (w : World) (cwd : List String) (o : Options) : Survey Unit := do
  let start ← trace [] cwd
  let follow (p : Path) : Survey (List String) :=
    trace (if p.isAbsolute then [] else start) (namesOf p.shown)
  let root ← follow ((o.root.map w.expand).getD (.ofString "."))
  below Rules.builtin root
  let _ ← follow (w.outputPath o.output)

end Survey

/-- Makes on the disk the directories that the run made, and writes the document that it wrote. -/
def carryOver (before : World) (outcome : Outcome) (output : Path) : IO Unit := do
  for dir in output.ancestors.tail.reverse do
    if outcome.world.isDirectory dir && !before.isDirectory dir then IO.FS.createDir dir.shown
  if outcome.stderr.any (· matches .log (.written _ _)) then
    match outcome.world.read output with
    | .ok bytes => IO.FS.writeBinFile output.shown ⟨bytes.toArray⟩
    | .error _ => pure ()

/-- The environment's word on colours. -/
def colourEnvironment : IO Terminal.Environment := do
  return ⟨← IO.getEnv "NO_COLOR", ← IO.getEnv "CLICOLOR_FORCE", ← IO.getEnv "CLICOLOR",
    ← (← IO.getStdout).isTty⟩

end SourceBundle

open SourceBundle in
/-- Runs the program on the arguments of the command line. -/
def main (args : List String) : IO UInt32 := do
  let arguments := args.map Bytes.ofString
  let colours := (← colourEnvironment).colours
  let cwd := Survey.namesOf (← IO.currentDir).toString
  let empty : World := ⟨⟨[]⟩, .named (Survey.trailOf cwd), ← IO.getEnv "HOME", "/"⟩
  let before : World ←
    match Options.ofArguments arguments with
    | .ok options => do
      let (_, disk) ← (Survey.reachable empty cwd options).run empty.disk
      pure { empty with disk := disk }
    | .error _ => pure empty
  let outcome := before.run colours .open arguments
  match Options.ofArguments arguments with
  | .ok options =>
    if !options.stdout then carryOver before outcome (before.outputPath options.output)
  | .error _ => pure ()
  let output ← IO.getStdout
  output.putStr outcome.stdout
  output.flush
  (← IO.getStderr).putStr (errorText colours (logLimit arguments) outcome.stderr)
  return UInt32.ofNat outcome.exitCode
