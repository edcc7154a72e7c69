import ClientGen.Descriptor.Syntax
import ClientGen.Descriptor.Token

/-! # Grammar of schema files

Recursive descent over tokens. A file outside the grammar is refused at the first
token that no file with the same beginning could have there.
-/

namespace ClientGen
namespace Descriptor

abbrev Reading := StateT (List Token) (Except Place)

namespace Reading

variable {α : Type}

/-- The next token. The end of the file stays the next one for good. -/
def next : Reading Token := do
  match ← get with
  | t :: _ => return t
  | [] => return ⟨.finish, {}⟩

def skip : Reading Unit := modify List.tail

def refuse : Reading α := do throw (← next).place

def sees (c : Char) : Reading Bool := do return (← next).kind == .mark c

def seesWord (words : List String) : Reading Bool := do
  match (← next).kind with
  | .word w => return words.contains w
  | _ => return false

def accept (c : Char) : Reading Bool := do
  if ← sees c then
    skip
    return true
  else return false

def acceptWord (word : String) : Reading Bool := do
  if ← seesWord [word] then
    skip
    return true
  else return false

def expect (c : Char) : Reading Unit := do unless ← accept c do refuse

def expectWord (word : String) : Reading Unit := do unless ← acceptWord word do refuse

/-- A name, which may also be one of the words of the grammar. -/
def name : Reading Name := do
  let t ← next
  match t.kind with
  | .word w =>
    skip
    return ⟨w, t.place⟩
  | _ => refuse

/-- A whole number without sign. -/
def natural : Reading Numeral := do
  let t ← next
  match t.kind with
  | .int n =>
    skip
    return ⟨n, t.place⟩
  | _ => refuse

/-- A whole number, perhaps behind a minus sign. -/
def integer : Reading Numeral := do
  let place := (← next).place
  if ← accept '-' then
    let n ← natural
    return ⟨-n.value, place⟩
  else natural

/-- Reads what follows while it goes on; every round takes a token. -/
def whileAux (again : Reading Bool) (item : Reading α) : Nat → Reading (List α)
  | 0 => return []
  | fuel + 1 => do
    if ← again then
      let x ← item
      let xs ← whileAux again item fuel
      return x :: xs
    else return []

def whileSeen (again : Reading Bool) (item : Reading α) : Reading (List α) := do
  whileAux again item ((← get).length + 1)

/-- Items with a mark between them, at least one. -/
def separated (c : Char) (item : Reading α) : Reading (List α) := do
  let first ← item
  let rest ← whileSeen (accept c) item
  return first :: rest

def upTo (c : Char) (item : Reading α) : Reading (List α) := do
  let items ← whileSeen (do return !(← sees c)) item
  expect c
  return items

def fullName : Reading Name := do
  let names ← separated '.' name
  return ⟨".".intercalate (names.map (·.text)), (names.head?.map (·.place)).getD {}⟩

def typeName : Reading Name := do
  let place := (← next).place
  if ← accept '.' then
    let n ← fullName
    return ⟨"." ++ n.text, place⟩
  else fullName

/-- The name of a type that starts with none of some words. -/
def typeNameBut (words : List String) : Reading Name := do
  if ← seesWord words then refuse else typeName

/-- A text. Adjacent texts are one. -/
def text : Reading Name := do
  let place := (← next).place
  let piece : Reading (List UInt8) := do
    match (← next).kind with
    | .text bytes =>
      skip
      return bytes
    | _ => refuse
  let first ← piece
  let rest ← whileSeen (do return match (← next).kind with | .text _ => true | _ => false) piece
  return ⟨Text.decode (first ++ rest.flatten), place⟩

/-- The value of a number behind its sign. A negative one beyond 64 bits counts as
a floating point number. -/
def signed (place : Place) : Reading Value := do
  match (← next).kind with
  | .int n =>
    skip
    return if n ≤ 1 <<< 63 then .int ⟨-(n : Int), place⟩ else .float place
  | .float =>
    skip
    return .float place
  | .word w =>
    if w == "inf" || w == "nan" then
      skip
      return .float place
    else refuse
  | _ => refuse

def scalar : Reading Value := do
  let t ← next
  match t.kind with
  | .text _ => return .text (← text)
  | .int n =>
    skip
    return .int ⟨n, t.place⟩
  | .float =>
    skip
    return .float t.place
  | .word w =>
    skip
    return .word ⟨w, t.place⟩
  | .mark '-' =>
    skip
    signed t.place
  | _ => refuse

/-- The name of a field in a message value. -/
def literalKey : Reading LiteralKey := do
  let place := (← next).place
  if ← accept '[' then
    let first ← fullName
    if ← accept '/' then
      let type ← fullName
      expect ']'
      return .typed ⟨first.text, place⟩ type
    else
      expect ']'
      return .extension ⟨first.text, place⟩
  else return .field (← name)

/-- A scalar in a message value, where the negative of infinity has a second name. -/
def literalScalar : Reading Value := do
  let t ← next
  if t.kind == .mark '-' then
    skip
    match (← next).kind with
    | .word w =>
      if ["inf", "infinity", "nan"].contains (String.ofList (w.toList.map Char.toLower)) then
        skip
        return .float t.place
      else refuse
    | _ => signed t.place
  else scalar

mutual

def literalFields (close : Char) : Nat → Reading (List (LiteralKey × Bool × Value))
  | 0 => refuse
  | fuel + 1 => do
    if ← accept close then return []
    else
      let key ← literalKey
      let colon ← accept ':'
      let value ← if colon then literalValue fuel else nestedValue fuel
      unless ← accept ',' do
        let _ ← accept ';'
      let rest ← literalFields close fuel
      return (key, colon, value) :: rest

def literalValue : Nat → Reading Value
  | 0 => refuse
  | fuel + 1 => do
    let place := (← next).place
    if ← accept '\x7b' then return .message place (← literalFields '\x7d' fuel)
    else if ← accept '<' then return .message place (← literalFields '>' fuel)
    else if ← accept '[' then return .list place (← literalItems false fuel)
    else literalScalar

/-- A value that needs no colon: a message or a list of messages. -/
def nestedValue : Nat → Reading Value
  | 0 => refuse
  | fuel + 1 => do
    let place := (← next).place
    if ← accept '\x7b' then return .message place (← literalFields '\x7d' fuel)
    else if ← accept '<' then return .message place (← literalFields '>' fuel)
    else if ← accept '[' then return .list place (← literalItems true fuel)
    else refuse

/-- The items of a list up to its closing bracket; lists are not nested. -/
def literalItems (messages : Bool) : Nat → Reading (List Value)
  | 0 => refuse
  | fuel + 1 => do
    if ← accept ']' then return []
    else itemsAfter messages fuel

def itemsAfter (messages : Bool) : Nat → Reading (List Value)
  | 0 => refuse
  | fuel + 1 => do
    let place := (← next).place
    let item ←
      if ← accept '\x7b' then pure (Value.message place (← literalFields '\x7d' fuel))
      else if ← accept '<' then pure (Value.message place (← literalFields '>' fuel))
      else if messages then refuse
      else literalScalar
    if ← accept ']' then return [item]
    else
      expect ','
      let rest ← itemsAfter messages fuel
      return item :: rest

end

def optionValue : Reading Value := do
  let place := (← next).place
  if ← accept '\x7b' then
    return .message place (← literalFields '\x7d' ((← get).length + 1))
  else scalar

def optionPart : Reading OptionPart := do
  let place := (← next).place
  if ← accept '(' then
    let type ← typeName
    expect ')'
    return { name := ⟨type.text, place⟩, isExtension := true }
  else return { name := ← name }

def option : Reading OptionDecl := do
  let first ← optionPart
  let rest ← whileSeen (accept '.') optionPart
  expect '='
  let value ← optionValue
  return { first, rest, value }

def optionStatement : Reading Element := do
  expectWord "option"
  let o ← option
  expect ';'
  return .option o

def bracketOptions : Reading (List OptionDecl) := do
  if ← accept '[' then
    let os ← separated ',' option
    expect ']'
    return os
  else return []

def range (number : Reading Numeral) : Reading RangeDecl := do
  let first ← number
  if ← acceptWord "to" then
    if ← acceptWord "max" then return { first, last := .largest }
    else return { first, last := .upTo (← number) }
  else return { first }

def reservation (number : Reading Numeral) : Reading Element := do
  expectWord "reserved"
  match (← next).kind with
  | .text _ =>
    let names ← separated ',' text
    expect ';'
    return .reservedNames names
  | _ =>
    let ranges ← separated ',' (range number)
    expect ';'
    return .reserved ranges

def label : Reading (Option (Label × Place)) := do
  let place := (← next).place
  if ← acceptWord "optional" then return some (.optional, place)
  else if ← acceptWord "required" then return some (.required, place)
  else if ← acceptWord "repeated" then return some (.repeated, place)
  else return none

def fieldRest (place : Place) (label : Option (Label × Place)) (type : Name) :
    Reading FieldDecl := do
  let name ← name
  expect '='
  let tag ← natural
  let options ← bracketOptions
  expect ';'
  return { place, label, type, name, tag, options }

def groupRest (place : Place) (label : Option (Label × Place))
    (body : Reading (List Element)) : Reading Element := do
  let word ← name
  let name ← name
  expect '='
  let tag ← natural
  let options ← bracketOptions
  expect '\x7b'
  let elements ← body
  return .group { place, label, type := ⟨name.text, word.place⟩, name, tag, options } elements

def keyTypes : List String :=
  ["int32", "int64", "uint32", "uint64", "sint32", "sint64", "fixed32", "fixed64", "sfixed32",
    "sfixed64", "bool", "string"]

/-- A field that starts with its type: a map if an angle follows that word. -/
def plainField (words : List String) (maps : Bool) : Reading Element := do
  let place := (← next).place
  if maps && (← seesWord ["map"]) then
    let word ← name
    if ← accept '<' then
      unless ← seesWord keyTypes do refuse
      let key ← name
      expect ','
      let value ← typeName
      expect '>'
      return .map key (← fieldRest place none value)
    else
      let rest ← whileSeen (accept '.') name
      let type := ".".intercalate (word.text :: rest.map (·.text))
      return .field (← fieldRest place none ⟨type, word.place⟩)
  else
    let type ← typeNameBut words
    return .field (← fieldRest place none type)

def labelledField (body : Reading (List Element)) : Reading Element := do
  let place := (← next).place
  let label ← label
  if ← seesWord ["group"] then groupRest place label body
  else return .field (← fieldRest place label (← typeName))

def labelWords : List String := ["optional", "required", "repeated"]

/-- A member of an enumeration, or what else may stand among its members. -/
def enumElement : Reading Element := do
  if ← accept ';' then return .empty
  else if ← seesWord ["option"] then optionStatement
  else if ← seesWord ["reserved"] then reservation integer
  else
    let name ← name
    expect '='
    let number ← integer
    let options ← bracketOptions
    expect ';'
    return .member { name, number, options }

def enumeration : Reading Element := do
  let place := (← next).place
  expectWord "enum"
  let name ← name
  expect '\x7b'
  return .enum place name (← upTo '\x7d' enumElement)

mutual

def messageBody : Nat → Reading (List Element)
  | 0 => refuse
  | fuel + 1 => do
    if ← accept '\x7d' then return []
    else
      let first ← messageElement fuel
      let rest ← messageBody fuel
      return first :: rest

def messageElement : Nat → Reading Element
  | 0 => refuse
  | fuel + 1 => do
    let place := (← next).place
    if ← accept ';' then return .empty
    else if ← seesWord ["option"] then optionStatement
    else if ← seesWord ["reserved"] then reservation natural
    else if ← seesWord ["enum"] then enumeration
    else if ← seesWord labelWords then labelledField (messageBody fuel)
    else if ← acceptWord "message" then
      let name ← name
      expect '\x7b'
      return .message place name (← messageBody fuel)
    else if ← acceptWord "extend" then
      let type ← typeName
      expect '\x7b'
      return .extend place type (← extendBody fuel)
    else if ← acceptWord "extensions" then
      let ranges ← separated ',' (range natural)
      let options ← bracketOptions
      expect ';'
      return .extensions place ranges options
    else if ← acceptWord "oneof" then
      let name ← name
      expect '\x7b'
      return .oneof place name (← oneofBody fuel)
    else plainField ["group"] true

def extendBody : Nat → Reading (List Element)
  | 0 => refuse
  | fuel + 1 => do
    if ← accept '\x7d' then return []
    else
      let first ←
        if ← seesWord labelWords then labelledField (messageBody fuel)
        else plainField ["group"] false
      let rest ← extendBody fuel
      return first :: rest

/-- The fields of a choice up to its closing brace. -/
def oneofBody : Nat → Reading (List Element)
  | 0 => refuse
  | fuel + 1 => do
    if ← accept '\x7d' then return []
    else
      let place := (← next).place
      let first ←
        if ← seesWord ["option"] then optionStatement
        else if ← seesWord ["group"] then groupRest place none (messageBody fuel)
        else plainField labelWords false
      let rest ← oneofBody fuel
      return first :: rest

end

/-- An element whose nesting is bounded by the number of tokens left. -/
def bounded (element : Nat → Reading α) : Reading α := do element ((← get).length + 1)

def methodEnd : Reading EndDecl := do
  expect '('
  let isStream ← acceptWord "stream"
  let type ← typeName
  expect ')'
  return { type, isStream }

/-- An option of a remote procedure, or an empty statement. -/
def methodElement : Reading (Option OptionDecl) := do
  if ← accept ';' then return none
  else
    match ← optionStatement with
    | .option o => return some o
    | _ => return none

def serviceElement : Reading Element := do
  let place := (← next).place
  if ← accept ';' then return .empty
  else if ← seesWord ["option"] then optionStatement
  else
    expectWord "rpc"
    let name ← name
    let request ← methodEnd
    expectWord "returns"
    let response ← methodEnd
    let options ←
      if ← accept '\x7b' then pure (← upTo '\x7d' methodElement).reduceOption
      else
        expect ';'
        pure []
    return .method { place, name, request, response, options }

def importRest (place : Place) : Reading Element := do
  let reach ←
    if ← acceptWord "weak" then pure Reach.weak
    else if ← acceptWord "public" then pure Reach.reexported
    else pure Reach.plain
  let path ← text
  expect ';'
  return .imported { place, path, reach }

def fileElement : Reading Element := do
  let place := (← next).place
  if ← accept ';' then return .empty
  else if ← seesWord ["option"] then optionStatement
  else if ← seesWord ["enum"] then enumeration
  else if ← seesWord ["message", "extend"] then bounded messageElement
  else if ← acceptWord "import" then importRest place
  else if ← acceptWord "package" then
    let name ← fullName
    expect ';'
    return .package place name
  else
    expectWord "service"
    let name ← name
    expect '\x7b'
    return .service place name (← upTo '\x7d' serviceElement)

def edition : Reading (Option Name) := do
  if ← acceptWord "syntax" then
    expect '='
    let value ← text
    expect ';'
    return some value
  else return none

def file : Reading FileSyntax := do
  let edition ← edition
  let elements ← whileSeen (do return (← next).kind != .finish) fileElement
  return { edition, elements }

end Reading

def parse (source : String) : Except Place FileSyntax :=
  (Reading.file.run (tokens source)).map (·.1)

end Descriptor
end ClientGen
