import LintSetup.Decimal.Binary

/-!
# The shortest decimal that names a double

A double stands for all the numbers that round to it: those strictly between the midpoints to its
two neighbours, and the midpoints themselves when its mantissa is even.  Of the decimals in that
interval its name is one with the fewest digits, and of those the nearest to it.

The search is by grids.  For one digit, two digits and so on up to seventeen, the two points of the
decimal grid around the double are tried; the first grid with a point in the interval gives the
name.  No other point of a grid can be in the interval when neither of these two is.

* `Decimal` --- `digits * 10 ^ exponent`;
* `Binary.Names` --- whether a decimal rounds to a double;
* `Binary.shortest` --- the name of a double.
-/

namespace LintSetup

/-- The number `digits * 10 ^ exponent`.  Two of them with the same value are the same when the
digits do not end in nought. -/
structure Decimal where
  digits : Nat
  exponent : Int
  deriving DecidableEq, Repr

namespace Decimal

/-- The number nought. -/
def zero : Decimal := ⟨0, 0⟩

/-- The same number without noughts at the end of its digits; `fuel` is a bound for how many there
are. -/
def strip : Nat → Decimal → Decimal
  | 0, x => x
  | fuel + 1, x =>
    if x.digits ≠ 0 ∧ x.digits % 10 = 0 then strip fuel ⟨x.digits / 10, x.exponent + 1⟩ else x

/-- The numerator and the denominator of a decimal. -/
def fraction (x : Decimal) : Nat × Nat :=
  if 0 ≤ x.exponent then (x.digits * Nat.pow 10 x.exponent.toNat, 1)
  else (x.digits, Nat.pow 10 (-x.exponent).toNat)

namespace Binary

/-- The numerator and the denominator of a double. -/
def fraction (x : Binary) : Nat × Nat := shifted x.mantissa 1 x.exponent

/-- Whether a decimal rounds to a double.  With the denominators cleared and everything taken four
times, the upper midpoint is `4 * mantissa + 2`, and the lower one is `4 * mantissa - 2`, or `- 1`
where the spacing halves below the double. -/
def names (x : Binary) (y : Decimal) : Bool :=
  let (n, d) := y.fraction
  let (n, d) := shifted (4 * n) d (-x.exponent)
  let below := if x.mantissa = Nat.pow 2 52 ∧ -1074 < x.exponent then 1 else 2
  let low := (4 * x.mantissa - below) * d
  let high := (4 * x.mantissa + 2) * d
  if x.mantissa % 2 = 0 then low ≤ n && n ≤ high else low < n && n < high

/-- The position of the first digit of `n / d`: the exponent `p` with `10 ^ p ≤ n / d < 10 ^ (p +
1)`. The search starts from a bound that the binary sizes give and comes down from there. -/
def magnitude (n d : Nat) : Int :=
  let bound : Int := ((Nat.log2 n : Int) - (Nat.log2 d : Int) + 1) * 30103 / 100000 + 1
  go 4 bound
where
  /-- Comes down to the first power of ten that is at most `n / d`. -/
  go : Nat → Int → Int
    | 0, p => p
    | fuel + 1, p =>
      let reached := if 0 ≤ p then d * Nat.pow 10 p.toNat ≤ n else d ≤ n * Nat.pow 10 (-p).toNat
      if reached then p else go fuel (p - 1)

/-- The point of the grid `10 ^ p` that is the name of a double, if one of the two points around the
double is in its interval: the nearer of them, and the even one when both are equally near. -/
def onGrid (x : Binary) (p : Int) : Option Decimal :=
  let (n, d) := x.fraction
  let (n, d) := if 0 ≤ p then (n, d * Nat.pow 10 p.toNat) else (n * Nat.pow 10 (-p).toNat, d)
  let q := n / d
  let r := 2 * (n % d)
  let low : Decimal := ⟨q, p⟩
  let high : Decimal := ⟨q + 1, p⟩
  let lowIn := names x low
  let highIn := names x high
  if lowIn && highIn then
    some (if r < d then low else if d < r then high else if q % 2 = 0 then low else high)
  else if lowIn then some low
  else if highIn then some high
  else none

/-- The first grid with a name, from the one at `p` downwards; `fuel` grids are tried. -/
def search (x : Binary) : Nat → Int → Decimal
  | 0, _ => Decimal.zero
  | fuel + 1, p =>
    match onGrid x p with
    | some y => y
    | none => search x fuel (p - 1)

/-- The shortest decimal that names a double. -/
def shortest (x : Binary) : Decimal :=
  if x.mantissa = 0 then Decimal.zero
  else
    let (n, d) := x.fraction
    strip 20 (search x 18 (magnitude n d))

end Binary
end Decimal
end LintSetup
