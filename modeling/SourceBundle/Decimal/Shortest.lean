/-!
Shortest decimals. A number `n / 2 ^ k` is held in binary with 53 significant bits; among the decimals
that lie closer to it than to any other such number, the one with the fewest decimal places is written,
and of two of those the nearer. All is exact arithmetic on naturals.

Here the number is at least one, so fewer places are fewer digits, and `n` has at most 53 bits, so the
number is held exactly.
-/

namespace SourceBundle.Decimal

/-- A power of two. -/
def twoTo (n : Nat) : Nat := Nat.pow 2 n

/-- A power of ten. -/
def tenTo (n : Nat) : Nat := Nat.pow 10 n

/-- How many significant bits a number is held with. -/
def precision : Nat := 53

/-- The decimals near `n / 2 ^ k`, as numerators over a common measure: one is `unit`, the number is
`value`, and the decimals between `value - below` and `value + above` read back as the number, the
ends included when `closed`. -/
structure Interval where
  unit : Nat
  value : Nat
  below : Nat
  above : Nat
  closed : Bool
  deriving DecidableEq, Repr

/-- The interval of the decimals that read back as `n / 2 ^ k`. Below a power of two the numbers lie
twice as close. -/
def Interval.around (n k : Nat) : Interval :=
  let spare := precision - 1 - Nat.log2 n
  let whole := n * twoTo spare
  ⟨twoTo (k + spare + 2), whole * 4, if whole = twoTo (precision - 1) then 1 else 2, 2,
    whole % 2 = 0⟩

/-- Whether the decimal `digits / 10 ^ places` reads back as the number. -/
def Interval.holds (i : Interval) (places digits : Nat) : Bool :=
  let point := digits * i.unit
  let low := (i.value - i.below) * tenTo places
  let high := (i.value + i.above) * tenTo places
  if i.closed then low ≤ point && point ≤ high else low < point && point < high

/-- The decimal with that many places that reads back as the number and lies nearest to it, the
greater of two equally near ones. -/
def Interval.nearest? (i : Interval) (places : Nat) : Option Nat :=
  let scaled := i.value * tenTo places
  let floor := scaled / i.unit
  let remainder := scaled % i.unit
  let lower := i.holds places floor
  let upper := i.holds places (floor + 1)
  if upper && (!lower || i.unit ≤ 2 * remainder) then some (floor + 1)
  else if lower then some floor
  else none

/-- The fewest places up to `bound` from `places` on, and the digits of that decimal. -/
def Interval.search (i : Interval) : Nat → Nat → Nat × Nat
  | 0, places => (places, i.value * tenTo places / i.unit)
  | bound + 1, places =>
    match i.nearest? places with
    | some digits => (places, digits)
    | none => i.search bound (places + 1)

/-- Digits with a decimal point before the last `places` of them. -/
def pointed (places digits : Nat) : String :=
  if places = 0 then toString digits
  else
    let fraction := toString (digits % tenTo places)
    toString (digits / tenTo places) ++ "." ++ "".pushn '0' (places - fraction.length) ++ fraction

/-- The shortest decimal of `n / 2 ^ k`. Seventeen places suffice for every number from one on. -/
def shortest (n k : Nat) : String :=
  let (places, digits) := (Interval.around n k).search 17 0
  pointed places digits

end SourceBundle.Decimal
