namespace CredentialRelay

/-- The value `± mantissa · 2 ^ exponent`. Reading a decimal gives the one representation with
`mantissa < 2 ^ 53` and either `2 ^ 52 ≤ mantissa` or `exponent = -1074`. -/
structure Binary64 where
  negative : Bool
  mantissa : Nat
  exponent : Int
deriving DecidableEq, Repr

namespace Binary64

def minExponent : Int := -1074

def maxExponent : Int := 971

def roundDiv (num den : Nat) : Nat :=
  let q := num / den
  let r := num % den
  if 2 * r < den then q
  else if den < 2 * r then q + 1
  else if q % 2 = 0 then q else q + 1

def scaled (num den : Nat) (exponent : Int) : Nat × Nat :=
  (num <<< (-exponent).toNat, den <<< exponent.toNat)

def exponentOf (num den : Nat) : Int :=
  let guess := max minExponent ((num.log2 : Int) - den.log2 - 53)
  let (n, d) := scaled num den guess
  if 1 <<< 53 ≤ n / d then guess + 1 else guess

def ofRatio (negative : Bool) (num den : Nat) : Binary64 :=
  let exponent := exponentOf num den
  let (n, d) := scaled num den exponent
  let mantissa := roundDiv n d
  if mantissa = 1 <<< 53 then { negative, mantissa := 1 <<< 52, exponent := exponent + 1 }
  else { negative, mantissa, exponent }

def finite? (x : Binary64) : Option Binary64 := if maxExponent < x.exponent then none else some x

def zero (negative : Bool) : Binary64 := { negative, mantissa := 0, exponent := minExponent }

/-- The double nearest to `digits · 10 ^ exponent`. A value below `10 ^ -400` is read as zero and
one from `10 ^ 400` on as too large without computing the power. -/
def ofDecimal? (negative : Bool) (digits : Nat) (exponent : Int) : Option Binary64 :=
  if digits = 0 || exponent + digits.log2 + 1 < -400 then some (zero negative)
  else if 400 < exponent then none
  else
    (ofRatio negative (digits * Nat.pow 10 exponent.toNat) (Nat.pow 10 (-exponent).toNat)).finite?

def ofNat (negative : Bool) (n : Nat) : Binary64 :=
  if n = 0 then zero negative else ofRatio negative n 1

def times (x y : Binary64) : Binary64 :=
  let (num, den) := scaled (x.mantissa * y.mantissa) 1 (-(x.exponent + y.exponent))
  if num = 0 then zero x.negative else ofRatio x.negative num den

def dividedBy (x y : Binary64) : Binary64 :=
  let (num, den) := scaled x.mantissa y.mantissa (y.exponent - x.exponent)
  if num = 0 then zero x.negative else ofRatio x.negative num den

def maxPower : Nat := 308

def powerOfTen (k : Nat) : Binary64 := ofNat false (Nat.pow 10 k)

def lower (x : Binary64) : Nat → Binary64
  | 0 => x
  | count + 1 =>
    if x.mantissa = 0 then x else lower (x.dividedBy (powerOfTen maxPower)) count

/-- The significand as a double, times or divided by a power of ten as a double. That need not be
the nearest double to `significand · 10 ^ exponent`. -/
def ofParts? (negative : Bool) (significand : Nat) (exponent : Int) : Option Binary64 :=
  let start := ofNat negative significand
  match exponent with
  | .ofNat k =>
    if significand = 0 then some start
    else if maxPower < k then none
    else (start.times (powerOfTen k)).finite?
  | .negSucc k => some ((start.lower (k / maxPower)).dividedBy (powerOfTen (k % maxPower + 1)))

def trunc (x : Binary64) : Int :=
  let whole := x.mantissa <<< x.exponent.toNat >>> (-x.exponent).toNat
  if x.negative then -whole else whole

end Binary64

end CredentialRelay
