import CredentialRelay.Http.Field
import CredentialRelay.Text.Decimal

namespace CredentialRelay.Http
open Bytes

structure Message where
  bytes : Bytes
deriving DecidableEq, Repr

namespace Message

def layout (message : Message) : Layout := .ofBytes message.bytes

def ofLayout (layout : Layout) : Message := ⟨layout.bytes⟩

def startLine (message : Message) : Bytes := content message.layout.start

def isResponse (message : Message) : Bool := (ofText "HTTP/").isPrefixOf message.startLine

def words (message : Message) : List Bytes :=
  (message.startLine.splitOn space).filter (· != [])

def method? (message : Message) : Option Bytes :=
  if message.isResponse then none else message.words[0]?

def path? (message : Message) : Option Bytes :=
  if message.isResponse then none else message.words[1]?

def status? (message : Message) : Option Nat :=
  if message.isResponse then do
    let word ← message.words[1]?
    Decimal.natural? UInt16.size (← text? word)
  else none

def fields (message : Message) : List Field := message.layout.headers.filterMap Field.ofLine?

def header? (message : Message) (name : String) : Option Bytes :=
  (message.fields.find? (·.isNamed name)).map (·.value)

def headerText? (message : Message) (name : String) : Option String :=
  (message.header? name).bind text?

def replaceValue? (name : String) (value : Bytes) : List Bytes → Option (List Bytes)
  | [] => none
  | line :: rest =>
    match (Field.ofLine? line).filter (·.isNamed name) with
    | some field => some ({ field with value }.bytes :: rest)
    | none => (replaceValue? name value rest).map (line :: ·)

def newLineEnd (start : Bytes) : Bytes :=
  if (splitLast lf start).1.getLast? = some cr then [cr, lf] else [lf]

def insertHeader (name : String) (value : Bytes) (layout : Layout) : Layout :=
  let newLine := newLineEnd layout.start
  let start := if layout.start.getLast? = some lf then layout.start else layout.start ++ newLine
  { layout with
    start
    headers := (ofText name ++ [colon, space] ++ value ++ newLine) :: layout.headers }

def setHeader (message : Message) (name : String) (value : Bytes) : Message :=
  let layout := message.layout
  match replaceValue? name value layout.headers with
  | some headers => ofLayout { layout with headers }
  | none => ofLayout (insertHeader name value layout)

def body (message : Message) : Bytes := message.layout.body

/-- Exchanges the body; without an empty line after the headers, it is put at the end. -/
def setBody (message : Message) (body : Bytes) : Message :=
  ofLayout { message.layout with body }

end Message

end CredentialRelay.Http
