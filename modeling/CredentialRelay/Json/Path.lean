import CredentialRelay.Json

namespace CredentialRelay.Json

def pathLabel (path : List String) : String := ".".intercalate path

def at? (path : List String) (doc : Json) : Option Json :=
  path.foldlM (fun value name => value.get? name) doc

def textAt? (path : List String) (doc : Json) : Option String := (doc.at? path).bind string?

mutual

def leaves : Json → List Json
  | array items => leavesOfAll items
  | json => [json]

def leavesOfAll : List Json → List Json
  | [] => []
  | item :: rest => leaves item ++ leavesOfAll rest

end

def signed? (json : Json) : Option Int := json.number?.map fun n => Decimal.clampSigned n.trunc

def descend (values : List Json) (name : String) : List Json :=
  (values.filterMap (get? name)).flatMap leaves

def signedBelow (path : List String) (value : Json) : List Int :=
  (path.foldl descend value.leaves).filterMap signed?

/-- The integers at the end of the path; `none` if, before any array, a name is missing or the
path does not end at a number. -/
def signedAt? : List String → Json → Option (List Int)
  | path, array items => some (signedBelow path (array items))
  | [], value => value.signed?.map ([·])
  | name :: path, value => (value.get? name).bind (signedAt? path)

end CredentialRelay.Json
