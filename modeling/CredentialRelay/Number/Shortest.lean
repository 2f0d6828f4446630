import CredentialRelay.Number.Binary64

namespace CredentialRelay.Binary64

structure Scientific where
  digits : List Char
  exponent : Int
deriving DecidableEq, Repr

def magnitude (x : Binary64) : Int :=
  let shifted := (Nat.pow 10 400 * x.mantissa) <<< x.exponent.toNat >>> (-x.exponent).toNat
  (Nat.toDigits 10 shifted).length - 400

def overGrid (x : Binary64) (grid : Int) : Nat × Nat :=
  ((x.mantissa * Nat.pow 10 (-grid).toNat) <<< x.exponent.toNat,
    Nat.pow 10 grid.toNat <<< (-x.exponent).toNat)

def readsBack (x : Binary64) (digits : Nat) (grid : Int) : Bool :=
  ofDecimal? x.negative digits grid = some x

def onGrid? (x : Binary64) (grid : Int) : Option (Nat × Int) :=
  let (n, d) := x.overGrid grid
  let below := n / d
  match x.readsBack below grid, x.readsBack (below + 1) grid with
  | false, false => none
  | true, false => some (below, grid)
  | false, true => some (below + 1, grid)
  | true, true =>
    if 2 * n < (2 * below + 1) * d then some (below, grid)
    else if (2 * below + 1) * d < 2 * n then some (below + 1, grid)
    else if below % 2 = 0 then some (below, grid)
    else some (below + 1, grid)

def exact (x : Binary64) : Nat × Int :=
  if x.exponent < 0 then (x.mantissa * Nat.pow 5 (-x.exponent).toNat, x.exponent)
  else (x.mantissa <<< x.exponent.toNat, 0)

/-- The first grid that holds a decimal for the value, from one digit on; seventeen digits
always do. -/
def shortest (x : Binary64) : Scientific :=
  let top := x.magnitude
  let (digits, grid) :=
    ((List.range 17).findSome? fun n : Nat => x.onGrid? (top - (n + 1))).getD x.exact
  let all := Nat.toDigits 10 digits
  { digits := (all.reverse.dropWhile (· == '0')).reverse
    exponent := grid + all.length - 1 }

end CredentialRelay.Binary64
