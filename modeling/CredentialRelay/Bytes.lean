namespace CredentialRelay

abbrev Bytes := List UInt8

def trimBy {α : Type} (p : α → Bool) (xs : List α) : List α :=
  ((xs.dropWhile p).reverse.dropWhile p).reverse

def cutAt? {α : Type} [BEq α] (sep : α) (xs : List α) : Option (List α × List α) :=
  match xs.dropWhile (· != sep) with
  | [] => none
  | _ :: rest => some (xs.takeWhile (· != sep), rest)

namespace Bytes

def lf : UInt8 := 10
def cr : UInt8 := 13
def space : UInt8 := 32
def tab : UInt8 := 9
def colon : UInt8 := 58

def ofText (s : String) : Bytes := s.toByteArray.data.toList

def text? (b : Bytes) : Option String := String.fromUTF8? ⟨b.toArray⟩

def isAsciiBlank (b : UInt8) : Bool :=
  b == space || b == tab || b == lf || b == 12 || b == cr

def lowerAscii (b : UInt8) : UInt8 :=
  if 65 ≤ b && b ≤ 90 then b + 32 else b

def sameName (a b : Bytes) : Bool :=
  a.map lowerAscii == b.map lowerAscii

def consLine (b : UInt8) (lines : List Bytes) : List Bytes :=
  if b = lf then [b] :: lines
  else match lines with
    | [] => [[b]]
    | line :: rest => (b :: line) :: rest

def lines (bytes : Bytes) : List Bytes := bytes.foldr consLine []

theorem flatten_consLine (b : UInt8) (ls : List Bytes) :
    (consLine b ls).flatten = b :: ls.flatten := by
  unfold consLine
  split
  · simp
  · split <;> simp

@[simp] theorem flatten_lines (bytes : Bytes) : (lines bytes).flatten = bytes := by
  induction bytes with
  | nil => rfl
  | cons b rest ih =>
    rw [lines, List.foldr_cons, flatten_consLine]
    exact congrArg (b :: ·) ih

end Bytes

end CredentialRelay
