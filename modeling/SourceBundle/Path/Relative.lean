import SourceBundle.Path.Basic

/-!
One path seen from another. Both are taken apart into components, the common beginning is dropped, and
what is left of the base is climbed out of. The answer is purely textual: no link is followed.
-/

namespace SourceBundle.Path

/-- What a path is made of. Single dots count only at the start of a relative path. -/
inductive Component where
  | root
  | here
  | up
  | name (bytes : Bytes)
  deriving DecidableEq, Repr

/-- The bytes that write a component. -/
def Component.bytes : Component → Bytes
  | .root => [Bytes.slash]
  | .here => Bytes.dot
  | .up => Bytes.dotDot
  | .name bytes => bytes

/-- The component that a segment stands for; empty segments and dots stand for none. -/
def Component.ofSegment? (segment : Bytes) : Option Component :=
  if segment = [] ∨ segment = Bytes.dot then none
  else if segment = Bytes.dotDot then some .up
  else some (.name segment)

/-- The components of a path. -/
def components (p : Path) : List Component :=
  let body := p.segments.filterMap Component.ofSegment?
  if p.isAbsolute then .root :: body
  else if p.segments.head? = some Bytes.dot then .here :: body
  else body

/-- The path that writes the components. -/
def ofComponents (cs : List Component) : Path :=
  cs.foldl (fun p c => if c = .root then ⟨c.bytes⟩ else p.join c.bytes) ⟨[]⟩

/-- The components that lead from the second list's end to the first list's; `done` holds those found
so far, the newest first. A base that climbs cannot be climbed out of. -/
def difference (done : List Component) : List Component → List Component → Option (List Component)
  | path, [] => some (done.reverse ++ path)
  | [], _ :: base => difference (.up :: done) [] base
  | c :: path, b :: base =>
    if done = [] ∧ c = b then difference done path base
    else if b = .here then difference (c :: done) path base
    else if b = .up then none
    else some (done.reverse ++ .up :: base.map (fun _ => .up) ++ c :: path)

/-- The path as seen from the directory `base`, if there is a way. -/
def relativeTo? (p base : Path) : Option Path :=
  if p.isAbsolute = base.isAbsolute then
    (difference [] p.components base.components).map ofComponents
  else if p.isAbsolute then some p
  else none

end SourceBundle.Path
