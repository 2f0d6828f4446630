namespace CredentialRelay

namespace Toml

inductive Origin where
  | header
  | implied
  | dotted
  | inline
deriving DecidableEq, Repr

end Toml

inductive Toml where
  | string (value : String)
  | integer (value : Int)
  | float
  | boolean (value : Bool)
  | dateTime
  | array (items : List Toml)
  | tables (items : List Toml)
  | table (origin : Toml.Origin) (entries : List (String × Toml))
deriving Inhabited, Repr

namespace Toml

abbrev Entries := List (String × Toml)

def replace (key : String) (value : Toml) (entries : Entries) : Entries :=
  entries.map fun entry => if entry.1 = key then (key, value) else entry

def add? (key : String) (value : Toml) (entries : Entries) : Option Entries :=
  if (entries.lookup key).isSome then none else some (entries ++ [(key, value)])

def changeLast? (change : Entries → Option Entries) (items : List Toml) : Option (List Toml) :=
  match items.getLast? with
  | some (table origin entries) =>
    (change entries).map fun entries => items.dropLast ++ [table origin entries]
  | _ => none

/-- Adds a value below a dotted key. The tables on the way are implied or dotted ones and the last
of them is dotted; missing ones are made. -/
def define? (key : String) (value : Toml) : (path : List String) → Entries → Option Entries
  | [], entries => add? key value entries
  | name :: path, entries =>
    match entries.lookup name with
    | none =>
      (define? key value path []).map fun inner => entries ++ [(name, table .dotted inner)]
    | some (table origin inner) =>
      if origin = .dotted || (origin = .implied && !path.isEmpty) then
        (define? key value path inner).map fun inner => replace name (table origin inner) entries
      else none
    | some (tables items) =>
      if path.isEmpty then none
      else
        (changeLast? (define? key value path) items).map fun items =>
          replace name (tables items) entries
    | some _ => none

def changeAt? (change : Entries → Option Entries) : (path : List String) → Entries → Option Entries
  | [], entries => change entries
  | name :: path, entries =>
    match entries.lookup name with
    | none =>
      (changeAt? change path []).map fun inner => entries ++ [(name, table .implied inner)]
    | some (table origin inner) =>
      if origin = .inline then none
      else
        (changeAt? change path inner).map fun inner => replace name (table origin inner) entries
    | some (tables items) =>
      (changeLast? (changeAt? change path) items).map fun items =>
        replace name (tables items) entries
    | some _ => none

structure Assignment where
  path : List String
  key : String
  value : Toml

def assign? (assignments : List Assignment) (entries : Entries) : Option Entries :=
  assignments.foldlM (fun entries a => define? a.key a.value a.path entries) entries

inductive Header where
  | one (path : List String) (key : String)
  | many (path : List String) (key : String)

/-- Puts a section into the document: a table can be given a header once, an array of tables gets
one more table. -/
def section? (header : Header) (assignments : List Assignment) (document : Entries) :
    Option Entries :=
  match header with
  | .one path key =>
    changeAt? (fun entries =>
      match entries.lookup key with
      | none => (assign? assignments []).map fun inner => entries ++ [(key, table .header inner)]
      | some (table .implied inner) =>
        (assign? assignments inner).map fun inner => replace key (table .header inner) entries
      | some _ => none) path document
  | .many path key =>
    changeAt? (fun entries =>
      match entries.lookup key with
      | none =>
        (assign? assignments []).map fun inner =>
          entries ++ [(key, tables [table .header inner])]
      | some (tables items) =>
        (assign? assignments []).map fun inner =>
          replace key (tables (items ++ [table .header inner])) entries
      | some _ => none) path document

def assemble? (top : List Assignment) (sections : List (Header × List Assignment)) :
    Option Toml := do
  let start ← assign? top []
  let entries ← sections.foldlM (fun entries s => section? s.1 s.2 entries) start
  pure (table .header entries)

end Toml

end CredentialRelay
