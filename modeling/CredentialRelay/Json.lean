import CredentialRelay.Number.Binary64
import CredentialRelay.Text.Decimal

namespace CredentialRelay

namespace Json

/-- A number is kept as an integer if it is written as one and fits 64 bits, with or without a
sign; any other is a double. -/
inductive Number where
  | integer (n : Int)
  | double (x : Binary64)
deriving DecidableEq, Repr

end Json

inductive Json where
  | null
  | bool (value : Bool)
  | number (value : Json.Number)
  | string (value : String)
  | array (items : List Json)
  | object (members : List (String × Json))
deriving Inhabited, Repr

namespace Json

def Number.trunc : Number → Int
  | integer n => n
  | double x => x.trunc

def insertMember (name : String) (value : Json) : List (String × Json) → List (String × Json)
  | [] => [(name, value)]
  | (n, v) :: rest =>
    if name < n then (name, value) :: (n, v) :: rest
    else if name = n then (name, value) :: rest
    else (n, v) :: insertMember name value rest

def ofMembers (members : List (String × Json)) : Json :=
  object (members.foldl (fun object (name, value) => insertMember name value object) [])

def get? (name : String) : Json → Option Json
  | object members => members.lookup name
  | _ => none

def string? : Json → Option String
  | string value => some value
  | _ => none

def number? : Json → Option Number
  | number value => some value
  | _ => none

end Json

end CredentialRelay
