import CredentialRelay.Bytes

namespace CredentialRelay.Text

def blankRanges : List (Nat × Nat) :=
  [(0x09, 0x0D), (0x20, 0x20), (0x85, 0x85), (0xA0, 0xA0), (0x1680, 0x1680), (0x2000, 0x200A),
    (0x2028, 0x2029), (0x202F, 0x202F), (0x205F, 0x205F), (0x3000, 0x3000)]

def isBlank (c : Char) : Bool :=
  blankRanges.any fun range => range.1 ≤ c.toNat && c.toNat ≤ range.2

def trim (s : String) : String := String.ofList (trimBy isBlank s.toList)

def split (sep : Char) (s : String) : List String := (s.toList.splitOn sep).map String.ofList

def cut? (sep : Char) (s : String) : Option (String × String) :=
  (cutAt? sep s.toList).map fun parts => (String.ofList parts.1, String.ofList parts.2)

end CredentialRelay.Text
