import AccessPolicy.Json.Double

/-!
# The shortest decimal that reads back

Every magnitude is the nearest one to all numbers of an interval around it (`Magnitude.span`), ends
included where its mantissa is even.  `Magnitude.shortest` is the decimal fraction of that interval
with the fewest digits and, among those, the nearest to the magnitude.

The search goes through the grids of numbers with 1, 2, … 17 digits.  On one grid only the two
neighbours of the magnitude need to be tried: if the interval holds any point of the grid, it holds
one of these.  All comparisons are between natural numbers.
-/

namespace AccessPolicy.Json

/-- The decimal fraction `digits * 10 ^ exponent`. -/
structure Decimal where
  digits : Nat
  exponent : Int
  deriving DecidableEq

/-- An interval around a positive value, as numerators over one denominator. -/
structure Span where
  lower : Nat
  value : Nat
  upper : Nat
  denominator : Nat
  closed : Bool

namespace Span

/-- Whether `n * grid` lies in the interval whose numerators are scaled by `scale`. -/
def holds (s : Span) (scale grid n : Nat) : Bool :=
  if s.closed then s.lower * scale ≤ n * grid && n * grid ≤ s.upper * scale
  else s.lower * scale < n * grid && n * grid < s.upper * scale

/-- The multiple of `10 ^ exponent` in the interval that is nearest to the value, as a factor; an
exact tie goes to the even one.  `none` if there is no multiple in the interval. -/
def onGrid? (s : Span) (exponent : Int) : Option Nat :=
  let scale := tenTo (-exponent).toNat
  let grid := s.denominator * tenTo exponent.toNat
  let value := s.value * scale
  let below := value / grid
  match s.holds scale grid below, s.holds scale grid (below + 1) with
  | true, true =>
    let toBelow := value - below * grid
    let toAbove := (below + 1) * grid - value
    if toBelow < toAbove ∨ toBelow = toAbove ∧ below % 2 = 0 then some below
    else some (below + 1)
  | true, false => some below
  | false, true => some (below + 1)
  | false, false => none

/-- Whether the value is at least `10 ^ exponent`. -/
def reaches (s : Span) (exponent : Int) : Bool :=
  s.denominator * tenTo exponent.toNat ≤ s.value * tenTo (-exponent).toNat

/-- The exponent of the leading decimal digit of the value.  The binary logarithm gives it up to
one, which `reaches` settles. -/
def leading (s : Span) : Int :=
  let estimate := (((s.value.log2 : Int) - s.denominator.log2) * 30103).fdiv 100000
  if s.reaches (estimate + 1) then estimate + 1 else estimate

end Span

namespace Magnitude

/-- The numbers that round to a magnitude.  They reach half-way to its neighbours, of which the
lower one is nearer if the mantissa is a power of two that was shifted. -/
def span (x : Magnitude) : Span where
  lower := (4 * x.mantissa - if x.mantissa = twoTo 52 ∧ 0 < x.shift then 1 else 2) * twoTo x.shift
  value := 4 * x.mantissa * twoTo x.shift
  upper := (4 * x.mantissa + 2) * twoTo x.shift
  denominator := 4 * unitsOfOne
  closed := x.mantissa % 2 = 0

/-- The fewest digits that round to a positive magnitude; 17 are always enough. -/
def shortest (x : Magnitude) : Decimal :=
  let leading := x.span.leading
  let found := (List.range 17).findSome? fun (more : Nat) =>
    (x.span.onGrid? (leading - more)).map fun digits => ⟨digits, leading - more⟩
  found.getD ⟨0, 0⟩

end Magnitude

end AccessPolicy.Json
