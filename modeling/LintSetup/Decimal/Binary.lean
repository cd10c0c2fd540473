/-!
# Binary fractions of double precision

A `Binary` is a number `mantissa * 2 ^ exponent`.  The doubles are the ones with a mantissa below
`2 ^ 53` and an exponent from `-1074` to `971`.  Everything here is exact arithmetic on natural
numbers.

* `Binary.round?` --- the double nearest a quotient, a tie going to the even mantissa, or `none`
  when the quotient is too large for any;
* `Binary.mul?`, `Binary.div?` --- product and quotient of two doubles, rounded once;
* `Binary.power?` --- the double nearest a power of ten;
* `isFinite` --- whether a decimal is within the range of the doubles;
* `scale?` --- a double scaled by a power of ten.
-/

namespace LintSetup.Decimal

/-- The number `mantissa * 2 ^ exponent`. -/
structure Binary where
  mantissa : Nat
  exponent : Int
  deriving DecidableEq, Repr

namespace Binary

/-- The number nought. -/
def zero : Binary := ⟨0, -1074⟩

/-- The numerator and the denominator of `num / den * 2 ^ e`. -/
def shifted (num den : Nat) (e : Int) : Nat × Nat :=
  if 0 ≤ e then (num * Nat.pow 2 e.toNat, den) else (num, den * Nat.pow 2 (-e).toNat)

/-- The whole number nearest a quotient; a half goes to the even neighbour. -/
def nearest (num den : Nat) : Nat :=
  let q := num / den
  let r := 2 * (num % den)
  if r < den then q else if den < r then q + 1 else if q % 2 = 0 then q else q + 1

/-- The least exponent at which a quotient has a mantissa below `2 ^ 53`. -/
def scaleOf (num den : Nat) : Int :=
  let guess : Int := max ((Nat.log2 num : Int) - (Nat.log2 den : Int) - 53) (-1074)
  let (n, d) := shifted num den (-guess)
  if n / d < Nat.pow 2 53 then guess else guess + 1

/-- The double nearest `num / den`; `none` when it is beyond the largest double. -/
def round? (num den : Nat) : Option Binary :=
  if num = 0 then some zero
  else
    let e := scaleOf num den
    let (n, d) := shifted num den (-e)
    let m := nearest n d
    let (m, e) := if m = Nat.pow 2 53 then (Nat.pow 2 52, e + 1) else (m, e)
    if 971 < e then none else some ⟨m, e⟩

/-- The product of two doubles, rounded. -/
def mul? (x y : Binary) : Option Binary :=
  let (n, d) := shifted (x.mantissa * y.mantissa) 1 (x.exponent + y.exponent)
  round? n d

/-- The quotient of two doubles, rounded; the divisor is not nought. -/
def div? (x y : Binary) : Option Binary :=
  let (n, d) := shifted x.mantissa y.mantissa (x.exponent - y.exponent)
  round? n d

/-- The double nearest a whole number. -/
def ofNat? (n : Nat) : Option Binary := round? n 1

/-- The double nearest a power of ten. -/
def power? (n : Nat) : Option Binary := round? (Nat.pow 10 n) 1

end Binary

/-- Whether `digits * 10 ^ exponent` rounds to a double.  A number with more than 400 places before
the point does not, and one with more than 400 noughts after it rounds to nought. -/
def isFinite (digits : Nat) (exponent : Int) : Bool :=
  let places : Int := (Nat.toDigits 10 digits).length + exponent
  if digits = 0 ∨ places < -400 then true
  else if 400 < places then false
  else if 0 ≤ exponent then (Binary.round? (digits * Nat.pow 10 exponent.toNat) 1).isSome
  else (Binary.round? digits (Nat.pow 10 (-exponent).toNat)).isSome

/-- Divides up to `k` times, and no further once nought is reached. -/
def divideTimes (step : Binary → Option Binary) : Nat → Binary → Option Binary
  | 0, x => some x
  | k + 1, x => if x.mantissa = 0 then some x else (step x).bind (divideTimes step k)

/-- The largest power of ten that a double is scaled by in one step. -/
def maxPower : Nat := 308

/-- The double that a significand scaled by a power of ten is read as.  The significand becomes a
double first, and is then multiplied or divided by the double nearest the power of ten, so the
result may differ from the double nearest the written number in the last place.  A division by more
than `10 ^ maxPower` is made in steps of that size.  `none` stands for a number that is too large.
-/
def scale? (significand : Binary) (power : Int) : Option Binary :=
  if 0 ≤ power then
    if power ≤ maxPower then (Binary.power? power.toNat).bind significand.mul?
    else if significand.mantissa = 0 then some significand
    else none
  else
    let n := (-power).toNat
    let steps := (n - 1) / maxPower
    (Binary.power? maxPower).bind fun big =>
      (divideTimes (·.div? big) steps significand).bind fun x =>
        (Binary.power? (n - steps * maxPower)).bind x.div?

end LintSetup.Decimal
