import CredentialRelay.Table
import CredentialRelay.Text.Blank

namespace CredentialRelay.Http

structure CookieMap where
  fields : Table String String

namespace CookieMap

def empty : CookieMap := ⟨∅⟩

instance : EmptyCollection CookieMap := ⟨empty⟩

def get? (cookies : CookieMap) (name : String) : Option String := cookies.fields.get? name

def insert (cookies : CookieMap) (name value : String) : CookieMap :=
  ⟨cookies.fields.insert name value⟩

def size (cookies : CookieMap) : Nat := cookies.fields.size

def isEmpty (cookies : CookieMap) : Bool := cookies.size = 0

def field? (segment : String) : Option (String × String) :=
  (Text.cut? '=' segment).map fun (name, value) => (Text.trim name, value)

def parse (text : String) : CookieMap :=
  ((Text.split ';' text).filterMap field?).foldl (fun cookies (name, value) =>
    cookies.insert name value) ∅

def refill (cookies : CookieMap) (text : String) : CookieMap :=
  (Text.split ';' text).foldl (fun cookies segment =>
    match field? segment with
    | some (name, value) => cookies.insert name value
    | none => cookies) ⟨cookies.fields.clear⟩

theorem refill_eq (cookies : CookieMap) (text : String) : cookies.refill text = parse text := by
  rw [refill, parse, List.foldl_filterMap, Table.clear_eq]
  congr 1
  funext cookies segment
  cases field? segment <;> rfl

def render (cookies : CookieMap) : String :=
  String.join (cookies.fields.pairs.map fun (name, value) =>
    name ++ "=" ++ Text.trim value ++ ";")

/-- An order for the fields of cookies to be written in. The cookies themselves have none. -/
structure Order where
  arrange : CookieMap → CookieMap
  perm : ∀ cookies, (arrange cookies).fields.pairs.Perm cookies.fields.pairs

def Order.arrival : Order := ⟨id, fun _ => .refl _⟩

def same (a b : CookieMap) : Bool :=
  a.size = b.size && a.fields.pairs.all fun (name, value) => b.get? name = some value

end CookieMap

end CredentialRelay.Http
