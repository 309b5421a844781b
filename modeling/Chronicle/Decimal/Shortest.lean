import Chronicle.Float64

/-!
# Shortest decimals of a float

The decimal of a finite float is the one with the fewest digits among those
that round back to it, and among these the nearest. It is found on the
coarsest grid of multiples of a power of ten that has a point in the interval
of numbers rounding to the float. The arithmetic is exact.
-/

namespace Chronicle

/-- The number `digits * 10 ^ exponent`. -/
structure Decimal where
  /-- The digits, read as one number. -/
  digits : Nat
  /-- The power of ten that scales them. -/
  exponent : Int
  deriving DecidableEq, Repr

/-- Which of two equally near decimals is taken. -/
inductive Tie where
  /-- The one whose last digit is even. -/
  | toEven
  /-- The one of larger magnitude. -/
  | away
  deriving DecidableEq, Repr

namespace Decimal

/-- A positive binary number and the distances to the ends of the interval
that rounds to it. The number is `significand * 2 ^ exponent`. -/
structure Target where
  /-- The integer significand. -/
  significand : Nat
  /-- The power of two that scales it. -/
  exponent : Int
  /-- The distance to the lower end, in quarters of `2 ^ exponent`. The upper
  end is two quarters away. -/
  below : Nat
  deriving DecidableEq, Repr

/-- A float that is the smallest with its exponent has its lower neighbour at
half the usual distance. -/
def Target.ofFloat (x : Float64) : Target :=
  let (m, q) := x.significand
  ⟨m, q, if x.fractionBits = 0 ∧ 1 < x.exponentBits then 1 else 2⟩

/-- The multiple of `10 ^ k` that rounds to the target and is nearest to it,
counted in units of `10 ^ k`, if there is one. The ends of the interval round
to the target exactly when its significand is even. -/
def Target.onGrid (t : Target) (tie : Tie) (k : Int) : Option Nat :=
  let scale := Nat.pow 2 t.exponent.toNat * Nat.pow 10 (-k).toNat
  let unit := 4 * (Nat.pow 2 (-t.exponent).toNat * Nat.pow 10 k.toNat)
  let value := 4 * t.significand * scale
  let low := value - t.below * scale
  let high := value + 2 * scale
  let rounds (point : Nat) : Bool :=
    if t.significand % 2 = 0 then low ≤ point && point ≤ high else low < point && point < high
  let floor := value / unit
  match rounds (floor * unit), rounds ((floor + 1) * unit) with
  | false, false => none
  | true, false => some floor
  | false, true => some (floor + 1)
  | true, true =>
    let down := value - floor * unit
    let up := (floor + 1) * unit - value
    if down < up then some floor
    else if up < down then some (floor + 1)
    else match tie with
      | .toEven => some (if floor % 2 = 0 then floor else floor + 1)
      | .away => some (floor + 1)

/-- The shortest decimal that rounds to the magnitude of a finite float. The
grids run from the largest power of ten below every infinity down to one finer
than the gap at the smallest float. -/
def shortest (tie : Tie) (x : Float64) : Decimal :=
  let target := Target.ofFloat x
  let grids := (List.range 633).map fun (i : Nat) => (308 : Int) - i
  match grids.findSome? fun k => (target.onGrid tie k).map (⟨·, k⟩) with
  | some d => d
  | none => ⟨0, 0⟩

end Decimal
end Chronicle
