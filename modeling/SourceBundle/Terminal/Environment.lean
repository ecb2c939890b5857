/-!
Whether colours are on is for the environment to say, by two rules. The console's own lines obey
`CLICOLOR_FORCE` before `NO_COLOR`, and to them a variable is on unless it is set to zero. Log lines and
usage messages obey `NO_COLOR` before `CLICOLOR_FORCE`, and to them either is on unless it is empty.
-/

namespace SourceBundle.Terminal

/-- What the environment says about colours. -/
structure Environment where
  /-- The value of `NO_COLOR`. -/
  noColor : Option String
  /-- The value of `CLICOLOR_FORCE`. -/
  force : Option String
  /-- The value of `CLICOLOR`. -/
  clicolor : Option String
  /-- Whether the output is a terminal. -/
  isTerminal : Bool

/-- Whether a variable is set to something else than zero. -/
def isOn (value : Option String) : Bool :=
  match value with
  | some text => text ≠ "0"
  | none => false

/-- Whether a variable is set to something else than the empty text. -/
def isFilled (value : Option String) : Bool :=
  match value with
  | some text => text ≠ ""
  | none => false

/-- How the output is coloured. -/
structure Colours where
  /-- The console's own lines. -/
  console : Bool
  /-- Log lines and usage messages. -/
  log : Bool
  deriving DecidableEq, Repr

namespace Environment

/-- Whether colours are on where nothing is said about them but by `CLICOLOR`. -/
def byTerminal (e : Environment) : Bool := e.isTerminal && (e.clicolor.isNone || isOn e.clicolor)

/-- Whether the console's own lines have colours. -/
def consoleColours (e : Environment) : Bool :=
  if isOn e.force then true
  else if e.noColor.isSome then false
  else e.byTerminal

/-- Whether log lines and usage messages have colours. -/
def logColours (e : Environment) : Bool :=
  if isFilled e.noColor then false
  else if isFilled e.force then true
  else e.byTerminal

/-- The colours that the environment asks for. -/
def colours (e : Environment) : Colours := ⟨e.consoleColours, e.logColours⟩

end Environment

end SourceBundle.Terminal
