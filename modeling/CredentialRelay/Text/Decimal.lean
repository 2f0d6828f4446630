namespace CredentialRelay.Decimal

def digit? (c : Char) : Option Nat :=
  if '0' ≤ c && c ≤ '9' then some (c.toNat - 48) else none

def digitsFrom (n : Nat) : List Char → Option Nat
  | [] => some n
  | c :: rest =>
    match digit? c with
    | none => none
    | some d => digitsFrom (n * 10 + d) rest

def digits? : List Char → Option Nat
  | [] => none
  | cs => digitsFrom 0 cs

def natural? (bound : Nat) (s : String) : Option Nat :=
  let n := match s.toList with
    | '+' :: rest => digits? rest
    | cs => digits? cs
  n.filter (· < bound)

def signedLimit : Int := 9223372036854775808

def fitsSigned (n : Int) : Bool := -signedLimit ≤ n && n < signedLimit

def signed? (s : String) : Option Int :=
  let n : Option Int := match s.toList with
    | '+' :: rest => (digits? rest).map Int.ofNat
    | '-' :: rest => (digits? rest).map fun n => -Int.ofNat n
    | cs => (digits? cs).map Int.ofNat
  n.filter fitsSigned

def clampSigned (n : Int) : Int :=
  if n < -signedLimit then -signedLimit else if n < signedLimit then n else signedLimit - 1

def text (n : Int) : String :=
  match n with
  | .ofNat n => String.ofList (Nat.toDigits 10 n)
  | .negSucc n => String.ofList ('-' :: Nat.toDigits 10 (n + 1))

end CredentialRelay.Decimal
