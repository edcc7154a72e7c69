import ClientGen.Document.Literal
import ClientGen.Proto.Tree

/-! # Parsing Protobuf

Recursive descent over the significant tokens. Keywords are contextual.
Reservations, extension ranges and extension blocks are read for balance and
dropped. Each production gives no value once it has met a token that the grammar
does not allow, which it has then reported.
-/

namespace ClientGen
namespace Proto

open Source
open Source.Parser

def typeName : Parser String := do
  let rooted ← accept .dot
  let name ← dottedName
  return if rooted then "." ++ name else name

def nameConst (name : String) : Const :=
  let kind : ConstKind :=
    if name = "true" ∨ name = "false" then .bool
    else if name = "inf" ∨ name = "nan" then .double
    else .identifier
  .scalar kind name

def signedConst (sign : String) : Parser Const := do
  advance
  match ← acceptWord ["inf", "nan"] with
  | some word => return .scalar .double (sign ++ word)
  | none =>
    let t ← expectOf [.integerDecimal, .integerHex, .floatDecimal]
    return Const.ofNumber sign t

/-- A scalar constant. Adjacent texts are one text. -/
def scalarConst : Parser Const := do
  match ← kind? with
  | some .text =>
    let ts ← whileDo (fun c => c.is .text) (expect .text)
    return .scalar .string (String.join (ts.map (·.value)))
  | some .minus => signedConst "-"
  | some .plus => signedConst ""
  | some .integerDecimal | some .integerHex | some .floatDecimal =>
    let t ← expectOf [.integerDecimal, .integerHex, .floatDecimal]
    return Const.ofNumber "" t
  | some .identifier =>
    let name ← dottedName
    return nameConst name
  | _ => illegal

/-- The items of a list up to its closing bracket, which is left. A comma may
stand after the last one. -/
def listItems {α : Type} (item : Parser α) : Nat → Parser (List α)
  | 0 => illegal
  | fuel + 1 => do
    if ← is .squareClose then return []
    else
      let x ← item
      if ← accept .comma then
        let xs ← listItems item fuel
        return x :: xs
      else return [x]

/-- The name of a field inside an aggregate value; extensions are in brackets. -/
def aggregateKey : Parser String := do
  if ← accept .squareOpen then
    let name ← dottedName
    let _ ← expect .squareClose
    return name
  else
    let t ← identifier
    return t.value

/-- A field inside an aggregate value of the option `name`: its key, a colon that
only nested aggregates may lack, and its value. -/
def aggregateField {α : Type} (value : String → Parser α) (name : String) : Parser α := do
  let key ← aggregateKey
  let colon ← accept .colon
  unless colon || (← is .curlyOpen) || (← is .angleOpen) do illegal
  let leaf ← value (name ++ "." ++ key)
  separator
  return leaf

/-- The value of an option: one entry for each scalar in it, under the path from
the option's name down to it. The items of a list share a path. -/
def optionValueAux (position : Position) : Nat → String → Parser (List OptionTree)
  | 0, _ => illegal
  | fuel + 1, name => do
    match ← kind? with
    | some .curlyOpen =>
      advance
      let leaves ← upTo .curlyClose (aggregateField (optionValueAux position fuel) name)
      return leaves.flatten
    | some .squareOpen =>
      advance
      let leaves ← listItems (optionValueAux position fuel name) (fuel + 1)
      let _ ← expect .squareClose
      return leaves.flatten
    | _ =>
      let value ← scalarConst
      return [{ position, name, value }]

/-- The value of an option. Each level of nesting takes a token, so the tokens
left bound it. -/
def optionValue (position : Position) (name : String) : Parser (List OptionTree) := fun c =>
  optionValueAux position (c.rest.length + 1) name c

def optionNamePart : Parser String := do
  if ← accept .parenOpen then
    let _ ← accept .dot
    let name ← dottedName
    let _ ← expect .parenClose
    return name
  else
    let t ← identifier
    return t.value

/-- The name of an option. Parentheses and a dot after an opening one are
dropped, so that an extension and a plain path name the same option. -/
def optionName : Parser String := do
  let parts ← sepBy1 .dot optionNamePart
  return ".".intercalate parts

def option : Parser (List OptionTree) := do
  let position ← here
  let name ← optionName
  let _ ← expect .equal
  optionValue position name

def optionStatement : Parser (List OptionTree) := do
  let _ ← expectWord ["option"]
  let os ← option
  let _ ← expect .semicolon
  return os

def bracketOptions : Parser (List OptionTree) := do
  if ← accept .squareOpen then
    let os ← sepBy1 .comma option
    let _ ← expect .squareClose
    return os.flatten
  else return []

/-- Passes over everything through the next semicolon. -/
def skipStatement : Parser Unit := do
  let _ ← whileDo (fun c => !c.atEnd && !c.is .semicolon) advance
  let _ ← expect .semicolon

/-- Passes over everything up to the brace that closes `depth` open ones. -/
def skipBraces : Nat → Nat → Parser Unit
  | 0, _ => pure ()
  | _ + 1, 0 => illegal
  | depth + 1, fuel + 1 => do
    match ← kind? with
    | none => illegal
    | some .curlyOpen =>
      advance
      skipBraces (depth + 2) fuel
    | some .curlyClose =>
      advance
      skipBraces depth fuel
    | some _ =>
      advance
      skipBraces (depth + 1) fuel

def skipExtend : Parser Unit := do
  let _ ← expectWord ["extend"]
  let _ ← typeName
  let _ ← expect .curlyOpen
  fun c => skipBraces 1 (c.rest.length + 1) c

def label : Parser Label := do
  match ← acceptWord ["optional", "required", "repeated"] with
  | some "optional" => return .optional
  | some "required" => return .required
  | some _ => return .repeated
  | none => return .none

/-- The type of a field. The word `map` starts a map only before an angle. -/
def fieldType : Parser TypeTree := do
  if ← look (fun c => c.isWord ["map"] && (c.peekAt 1).any fun t => t.kind == .angleOpen) then
    advance
    advance
    let key ← typeName
    let _ ← expect .comma
    let value ← typeName
    let _ ← expect .angleClose
    return .map key value
  else return .name (← typeName)

def field (oneof : Option String) : Parser FieldTree := do
  let first ← place
  let position ← here
  let label ← label
  let type ← fieldType
  let name ← identifier
  let _ ← expect .equal
  let number ← integer
  let options ← bracketOptions
  let _ ← expect .semicolon
  let decl ← declare first
  return { origin := ⟨position, decl⟩, label, type, name := name.value, number, oneof, options }

def oneofItem (name : String) : Parser (Option FieldTree) := do
  if ← accept .semicolon then return none
  else if ← isWord ["option"] then
    let _ ← optionStatement
    return none
  else return some (← field (some name))

/-- A choice between fields. It is no declaration of its own. -/
def oneof : Parser (List FieldTree) := do
  let _ ← expectWord ["oneof"]
  let name ← identifier
  let _ ← expect .curlyOpen
  let items ← upTo .curlyClose (oneofItem name.value)
  return items.reduceOption

def enumMember : Parser MemberTree := do
  let first ← place
  let name ← identifier
  let _ ← expect .equal
  let number ← integer
  let options ← bracketOptions
  let _ ← expect .semicolon
  let decl ← declare first
  return { origin := ⟨name.span.first, decl⟩, name := name.value, number, options }

/-- What an item inside an enumeration or a service gives. -/
inductive BodyItem (α : Type) where
  | nothing
  | options (os : List OptionTree)
  | element (a : α)

def BodyItem.allOptions {α : Type} (items : List (BodyItem α)) : List OptionTree :=
  items.flatMap fun
    | .options os => os
    | _ => []

def BodyItem.elements {α : Type} (items : List (BodyItem α)) : List α :=
  items.filterMap fun
    | .element a => some a
    | _ => none

def enumItem : Parser (BodyItem MemberTree) := do
  if ← accept .semicolon then return .nothing
  else if ← isWord ["option"] then return .options (← optionStatement)
  else if ← isWord ["reserved"] then
    skipStatement
    return .nothing
  else return .element (← enumMember)

def enumDefinition : Parser EnumTree := do
  let first ← place
  let word ← expectWord ["enum"]
  let name ← identifier
  let _ ← expect .curlyOpen
  let items ← upTo .curlyClose enumItem
  let decl ← declare first
  return { origin := ⟨word.span.first, decl⟩, name := name.value,
           members := BodyItem.elements items, options := BodyItem.allOptions items }

inductive MessageItem where
  | nothing
  | options (os : List OptionTree)
  | fields (fs : List FieldTree)
  | message (m : MessageTree)
  | enum (e : EnumTree)

def MessageTree.ofItems (origin : Origin) (name : String) (items : List MessageItem) :
    MessageTree :=
  .mk origin name
    (items.flatMap fun
      | .fields fs => fs
      | _ => [])
    (items.filterMap fun
      | .message m => some m
      | _ => none)
    (items.filterMap fun
      | .enum e => some e
      | _ => none)
    (items.flatMap fun
      | .options os => os
      | _ => [])

def messageItem (nested : Parser MessageTree) : Parser MessageItem := do
  if ← accept .semicolon then return .nothing
  else if ← isWord ["option"] then return .options (← optionStatement)
  else if ← isWord ["message"] then return .message (← nested)
  else if ← isWord ["enum"] then return .enum (← enumDefinition)
  else if ← isWord ["oneof"] then return .fields (← oneof)
  else if ← isWord ["reserved", "extensions"] then
    skipStatement
    return .nothing
  else if ← isWord ["extend"] then
    skipExtend
    return .nothing
  else return .fields [← field none]

def messageAux : Nat → Parser MessageTree
  | 0 => illegal
  | fuel + 1 => do
    let first ← place
    let word ← expectWord ["message"]
    let name ← identifier
    let _ ← expect .curlyOpen
    let items ← upTo .curlyClose (messageItem (messageAux fuel))
    let decl ← declare first
    return MessageTree.ofItems ⟨word.span.first, decl⟩ name.value items

/-- A message. Each level of nesting takes a token, so the tokens left bound it. -/
def message : Parser MessageTree := fun c => messageAux (c.rest.length + 1) c

/-- One end of a remote procedure. The word `stream` is also the name of a
message when it stands alone. -/
def rpcEnd : Parser EndTree := do
  let _ ← expect .parenOpen
  let stream ← look fun c =>
    c.isWord ["stream"] && (c.peekAt 1).any fun t => t.kind != .parenClose
  if stream then advance
  let name ← typeName
  let _ ← expect .parenClose
  return { name, stream }

/-- An item inside the braces of a remote procedure. -/
def rpcItem : Parser (List OptionTree) := do
  if ← accept .semicolon then return []
  else if ← isWord ["option"] then optionStatement
  else illegal

/-- What follows the ends of a remote procedure: options in braces, perhaps with
a semicolon after them, or a semicolon alone. -/
def rpcBody : Parser (List OptionTree) := do
  if ← accept .curlyOpen then
    let items ← upTo .curlyClose rpcItem
    let _ ← accept .semicolon
    return items.flatten
  else
    let _ ← expect .semicolon
    return []

def rpc : Parser RpcTree := do
  let first ← place
  let word ← expectWord ["rpc"]
  let name ← identifier
  let request ← rpcEnd
  let _ ← expectWord ["returns"]
  let response ← rpcEnd
  let options ← rpcBody
  let decl ← declare first
  return { origin := ⟨word.span.first, decl⟩, name := name.value, request, response, options }

def serviceItem : Parser (BodyItem RpcTree) := do
  if ← accept .semicolon then return .nothing
  else if ← isWord ["option"] then return .options (← optionStatement)
  else if ← isWord ["rpc"] then return .element (← rpc)
  else illegal

def serviceDefinition : Parser ServiceTree := do
  let first ← place
  let word ← expectWord ["service"]
  let name ← identifier
  let _ ← expect .curlyOpen
  let items ← upTo .curlyClose serviceItem
  let decl ← declare first
  return { origin := ⟨word.span.first, decl⟩, name := name.value,
           rpcs := BodyItem.elements items, options := BodyItem.allOptions items }

/-- The word in front of an imported path. -/
def modifier : Parser Modifier := do
  match ← acceptWord ["weak", "public"] with
  | some "weak" => return .weak
  | some _ => return .reexported
  | none => return .plain

def importStatement : Parser ImportTree := do
  let word ← expectWord ["import"]
  let modifier ← modifier
  let path ← expect .text
  let _ ← expect .semicolon
  return { position := word.span.first, modifier, path := path.value,
           pathPosition := path.span.first }

inductive FileItem where
  | nothing
  | edition (name : String)
  | package (name : String)
  | imported (i : ImportTree)
  | options (os : List OptionTree)
  | definition (d : Definition)

def fileItem : Parser FileItem := do
  if ← accept .semicolon then return .nothing
  else if ← isWord ["syntax", "edition"] then
    advance
    let _ ← expect .equal
    let v ← expect .text
    let _ ← expect .semicolon
    return .edition v.value
  else if ← isWord ["package"] then
    advance
    let name ← dottedName
    let _ ← expect .semicolon
    return .package name
  else if ← isWord ["import"] then return .imported (← importStatement)
  else if ← isWord ["option"] then return .options (← optionStatement)
  else if ← isWord ["message"] then return .definition (.message (← message))
  else if ← isWord ["enum"] then return .definition (.enum (← enumDefinition))
  else if ← isWord ["service"] then return .definition (.service (← serviceDefinition))
  else if ← isWord ["extend"] then
    skipExtend
    return .nothing
  else illegal

/-- A file with one more item; a later edition or package replaces the one before. -/
def Tree.add (t : Tree) : FileItem → Tree
  | .nothing => t
  | .edition name => { t with edition := name }
  | .package name => { t with package := name }
  | .imported i => { t with imports := t.imports ++ [i] }
  | .options os => { t with options := t.options ++ os }
  | .definition d => { t with definitions := t.definitions ++ [d] }

def file : Parser Tree := do
  if ← look (·.failed) then giveUp
  let items ← whileDo (fun c => !c.atEnd) fileItem
  return items.foldl Tree.add {}

end Proto
end ClientGen
