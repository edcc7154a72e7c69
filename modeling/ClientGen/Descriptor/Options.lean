import ClientGen.Descriptor.Link

/-! # Options

The options of a declaration are fields of a message that the standard files
describe, or extensions of it. Each option has to name such a field and to give it
a value of its type, and a field that is not repeated is set once.
-/

namespace ClientGen
namespace Descriptor

/-- The types that values are checked against, by full name. -/
structure Types where
  messages : List (String × MessageHead) := []
  enums : List (String × EnumDescriptor) := []
  extensions : List (String × FieldDescriptor) := []
deriving Repr, Inhabited

namespace Types

def join (a b : Types) : Types :=
  { messages := a.messages ++ b.messages, enums := a.enums ++ b.enums,
    extensions := a.extensions ++ b.extensions }

def ofScope (scope : String) (enums : List EnumDescriptor) (extensions : List FieldDescriptor) :
    Types :=
  { enums := enums.map fun e => (qualify scope e.name, e),
    extensions := extensions.map fun f => (qualify scope f.name, f) }

mutual

def ofMessage (scope : String) : MessageDescriptor → Types
  | .mk head nested =>
    let full := qualify scope head.name
    (({ messages := [(full, head)] } : Types).join (ofScope full head.enums head.extensions)).join
      (ofMessages full nested)

def ofMessages (scope : String) : List MessageDescriptor → Types
  | [] => {}
  | m :: rest => (ofMessage scope m).join (ofMessages scope rest)

end

def ofFile (f : FileDescriptor) : Types :=
  (ofScope f.package f.enums f.extensions).join (ofMessages f.package f.messages)

def ofFiles (files : List FileDescriptor) : Types := files.foldl (fun t f => t.join (ofFile f)) {}

def fields (t : Types) (full : String) : List FieldDescriptor :=
  ((List.lookup full t.messages).map (·.fields)).getD []

end Types

/-- What is set in a message: fields by key, each with what is set in it. A field
that is repeated may be there several times. -/
inductive Filled where
  | mk (fields : List (String × Filled))
deriving Repr, Inhabited

namespace Filled

def fields : Filled → List (String × Filled)
  | mk fields => fields

def none : Filled := mk []

def has (m : Filled) (key : String) : Bool := m.fields.any fun (k, _) => k == key

def find (m : Filled) (key : String) : Filled := (List.lookup key m.fields).getD none

def add (m : Filled) (key : String) (value : Filled) : Filled := mk (m.fields ++ [(key, value)])

def replace (m : Filled) (key : String) (value : Filled) : Filled :=
  mk (m.fields.filter (fun (k, _) => k != key) ++ [(key, value)])

end Filled

/-- The key of a field; those of extensions stand in brackets. -/
def fieldKey (full : String) (f : FieldDescriptor) : String :=
  if f.extendee.isSome then "[" ++ full ++ "]" else f.name

/-- What values are checked against: the types, and how names are found. -/
structure Interpreter where
  types : Types
  view : View

namespace Interpreter

/-- The least and the largest value of the types of whole numbers. -/
def intBounds : List (String × Int × Int) :=
  let signed32 : Int × Int := (-(1 <<< 31), (1 <<< 31) - 1)
  let signed64 : Int × Int := (-(1 <<< 63), (1 <<< 63) - 1)
  let unsigned32 : Int × Int := (0, (1 <<< 32) - 1)
  let unsigned64 : Int × Int := (0, (1 <<< 64) - 1)
  [("int32", signed32), ("sint32", signed32), ("sfixed32", signed32), ("int64", signed64),
    ("sint64", signed64), ("sfixed64", signed64), ("uint32", unsigned32), ("fixed32", unsigned32),
    ("uint64", unsigned64), ("fixed64", unsigned64)]

/-- Whether a value is of a scalar type. Inside message values truth values and
infinity have more spellings. -/
def fits (type : String) (inside : Bool) (v : Value) : Bool :=
  match v with
  | .word w =>
    if type = "bool" then
      (if inside then ["t", "true", "True", "f", "false", "False"] else ["true", "false"]).contains w.text
    else if type = "double" ∨ type = "float" then
      ["inf", "nan"].contains w.text || (inside && ["inf", "infinity", "nan"].contains (Text.lower w.text))
    else false
  | .text _ => type = "string" || type = "bytes"
  | .float _ => type = "double" || type = "float"
  | .int n =>
    type = "double" || type = "float" ||
      (match List.lookup type intBounds with
        | some (least, largest) => least ≤ n.value && n.value ≤ largest
        | none => false)
  | _ => false

/-- Checks that a value is one of an enumeration. Numbers stand for members inside
message values only. -/
def checkEnumValue (c : Interpreter) (full : String) (inside : Bool) (v : Value) : Checked Unit :=
  match List.lookup full c.types.enums, v with
  | some e, .word w =>
    if e.members.any fun (name, _) => name == w.text then .ok ()
    else complain w.place ("enum " ++ full ++ " has no value named " ++ w.text)
  | some e, .int n =>
    if ¬ inside then complain n.place "expecting enum name"
    else if n.value < leastInt32 ∨ largestInt32 < n.value then
      complain n.place "value is out of range for an enum"
    else if e.isOpen ∨ e.members.any fun (_, m) => m == n.value then .ok ()
    else complain n.place ("closed enum " ++ full ++ " has no such value")
  | _, v => complain v.place "expecting enum"

def extension? (c : Interpreter) (around : List String) (name : String) :
    Option (String × FieldDescriptor) := do
  let full ← c.view.extension? around name
  return (full, ← List.lookup full c.types.extensions)

def literalField? (c : Interpreter) (message : String) : LiteralKey → Option (String × FieldDescriptor)
  | .field name =>
    ((c.types.fields message).find? fun f => f.name == name.text).map fun f => ("", f)
  | .extension name => c.extension? [] name.text
  | .typed _ _ => none

def checkChoice (c : Interpreter) (message : String) (place : Place) (f : FieldDescriptor)
    (m : Filled) : Checked Unit :=
  let others := (c.types.fields message).filter fun g => g.oneof == f.oneof && g.name != f.name
  if f.oneof.isSome ∧ f.extendee.isNone ∧ others.any fun g => m.has g.name then
    complain place "oneof already has another field set"
  else .ok ()

def set (c : Interpreter) (message key : String) (place : Place) (f : FieldDescriptor)
    (m value : Filled) : Checked Filled := do
  c.checkChoice message place f m
  if f.label ≠ .repeated ∧ m.has key then complain place "non-repeated option field already set"
  return m.add key value

def setAll (key : String) (place : Place) (f : FieldDescriptor) (m : Filled)
    (values : List Filled) : Checked Filled :=
  if f.label ≠ .repeated then complain place "value is an array but field is not repeated"
  else .ok (values.foldl (fun m v => m.add key v) m)

def typeHosts : List String := ["type.googleapis.com", "type.googleprod.com"]

def checkTypeReference (c : Interpreter) (message : String) (host type : Name) : Checked Unit := do
  if message ≠ "google.protobuf.Any" then
    complain host.place "type references are only allowed for google.protobuf.Any"
  if ¬ typeHosts.contains host.text then complain host.place "could not resolve type reference"
  match c.view.find? type.text with
  | some (.message _ _) => return ()
  | _ => complain host.place "could not resolve type reference"

/-- The key and the field that a field of a message value sets. Without a colon it
has to hold a message. -/
def literalTarget (c : Interpreter) (message : String) (key : LiteralKey) (colon : Bool)
    (place : Place) : Checked (String × FieldDescriptor) :=
  match c.literalField? message key with
  | none => complain key.place "field not found"
  | some (full, f) =>
    let isMessage : Bool := match f.kind with
      | .message _ => true
      | _ => false
    if ¬ colon ∧ ¬ isMessage then complain place "unexpected value, expecting ':'"
    else .ok (fieldKey full f, f)

mutual

def value (c : Interpreter) (kind : FieldKind) (inside : Bool) : Value → Checked Filled
  | .message place fields =>
    match kind with
    | .message full =>
      if fields.length > 1 ∧ fields.any fun (key, _) => key matches .typed _ _ then
        complain place "type references cannot be repeated or mixed with other fields"
      else c.literal full .none fields
    | _ => complain place "unexpected message"
  | v =>
    match kind with
    | .message _ => complain v.place "expecting message"
    | .enum full => do
      c.checkEnumValue full inside v
      return .none
    | .scalar type =>
      if fits type inside v then .ok .none else complain v.place ("expecting " ++ type)

def values (c : Interpreter) (kind : FieldKind) (inside : Bool) : List Value → Checked (List Filled)
  | [] => .ok []
  | v :: rest => do
    let first ← c.value kind inside v
    return first :: (← c.values kind inside rest)

def literal (c : Interpreter) (message : String) (m : Filled) :
    List (LiteralKey × Bool × Value) → Checked Filled
  | [] => .ok m
  | (.typed host type, _, v) :: rest => do
    c.checkTypeReference message host type
    let _ ← c.value (.message type.text) true v
    c.literal message m rest
  | (key, colon, .list place items) :: rest => do
    let (name, f) ← c.literalTarget message key colon place
    let m ← setAll name place f m (← c.values f.kind true items)
    c.literal message m rest
  | (key, colon, v) :: rest => do
    let (name, f) ← c.literalTarget message key colon v.place
    let m ← c.set message name key.place f m (← c.value f.kind true v)
    c.literal message m rest

end

def assign (c : Interpreter) (message key : String) (place : Place) (f : FieldDescriptor)
    (m : Filled) (v : Value) : Checked Filled := do
  c.set message key place f m (← c.value f.kind false v)

/-- The field that a part of an option's name stands for, and the name of an
extension. -/
def part (c : Interpreter) (around : List String) (message : String) (p : OptionPart) :
    Checked (String × FieldDescriptor) :=
  if p.isExtension then
    match c.extension? around p.name.text with
    | some (full, f) =>
      if f.extendee = some message then .ok (full, f)
      else complain p.name.place ("extension " ++ full ++ " should extend " ++ message)
    | none => complain p.name.place ("unrecognized extension " ++ p.name.text)
  else
    match (c.types.fields message).find? fun f => f.name == p.name.text with
    | some f => .ok ("", f)
    | none =>
      complain p.name.place ("field " ++ p.name.text ++ " of " ++ message ++ " does not exist")

/-- Sets the field at the end of a path of names. -/
def setAt (c : Interpreter) (around : List String) (v : Value) (p : OptionPart) :
    List OptionPart → String → Filled → Checked Filled
  | [], message, m => do
    let (full, f) ← c.part around message p
    c.assign message (fieldKey full f) p.name.place f m v
  | q :: rest, message, m => do
    let (full, f) ← c.part around message p
    let key := fieldKey full f
    match f.kind with
    | .message inner =>
      if f.label = .repeated then complain q.name.place "cannot set a field of a repeated option"
      if ¬ m.has key then c.checkChoice message p.name.place f m
      let child ← c.setAt around v q rest inner (m.find key)
      return m.replace key child
    | _ => complain q.name.place "cannot set a field of an option that is not a message"

mutual

def lacks (c : Interpreter) (message : String) : Filled → Bool
  | .mk fields =>
    (c.types.fields message).any (fun f => f.label = .required && !(fields.any fun (k, _) => k == f.name)) ||
      c.lacksInside message fields

def lacksInside (c : Interpreter) (message : String) : List (String × Filled) → Bool
  | [] => false
  | (key, inner) :: rest =>
    let own := (c.types.fields message).map fun f => (f.name, f)
    let added := c.types.extensions.map fun (full, f) => (fieldKey full f, f)
    let here := match List.lookup key (own ++ added) with
      | some f => match f.kind with
        | .message full => c.lacks full inner
        | _ => false
      | none => false
    here || c.lacksInside message rest

end

def interpret (c : Interpreter) (around : List String) (message : String) (place : Place)
    (options : List OptionDecl) : Checked Unit := do
  let filled ← options.foldlM (fun m o => do
    if ¬ o.first.isExtension ∧ o.first.name.text = "uninterpreted_option" then
      complain o.place "invalid option 'uninterpreted_option'"
    c.setAt around o.value o.first o.rest message m) Filled.none
  if c.lacks message filled then complain place "some required fields are missing in options"

def withoutOption (name : String) (options : List OptionDecl) : List OptionDecl :=
  options.filter fun o => o.first.isExtension || o.first.name.text != name || !o.rest.isEmpty

def checkJsonName (f : Field) : Checked Unit := do
  if let some o ← findOption "json_name" f.decl.options then
    match o.value with
    | .text s =>
      if f.extendee.isSome then complain o.place "option json_name is not allowed on extensions"
      if Text.startsWith s.text "[" && Text.endsWith s.text "]" then
        complain s.place "option json_name value is reserved for representing extensions"
    | v => complain v.place "expecting string value for json_name option"

def checkDefault (c : Interpreter) (around : List String) (f : Field) : Checked Unit := do
  if let some o ← findOption "default" f.decl.options then
    if f.label = some .repeated then
      complain o.place "default value cannot be set because field is repeated"
    match c.view.kind around f with
    | .message _ => complain o.place "default value cannot be set because field is a message"
    | kind => discard (c.value kind false o.value)

/-- Checks the options of a declaration. Two of those of a field are not fields of
the message of options. -/
def interpretEntry (c : Interpreter) (e : Entry) : Checked Unit := do
  match e.item with
  | .message (.mk place _ _ body _) =>
    c.interpret e.around "google.protobuf.MessageOptions" place (withoutOption "map_entry" body.options)
    body.extensionRanges.forM fun r =>
      c.interpret (e.fullName :: e.around) "google.protobuf.ExtensionRangeOptions" r.place r.options
  | .field f =>
    checkJsonName f
    c.checkDefault e.around f
    c.interpret e.around "google.protobuf.FieldOptions" f.decl.place
      (withoutOption "default" (withoutOption "json_name" f.decl.options))
  | .oneof o => c.interpret e.around "google.protobuf.OneofOptions" o.name.place o.options
  | .enum x => c.interpret e.around "google.protobuf.EnumOptions" x.place x.options
  | .member m => c.interpret e.around "google.protobuf.EnumValueOptions" m.name.place m.options
  | .service s => c.interpret e.around "google.protobuf.ServiceOptions" s.name.place s.options
  | .method m => c.interpret e.around "google.protobuf.MethodOptions" m.place m.options

def interpretFile (c : Interpreter) (o : Outline) : Checked Unit := do
  c.interpret [] "google.protobuf.FileOptions" {} o.body.options
  o.entries.forM c.interpretEntry

end Interpreter

def Item.options : Item → List OptionDecl
  | message (.mk _ _ _ body _) => body.options ++ body.extensionRanges.flatMap (·.options)
  | field f => f.decl.options
  | oneof o => o.options
  | enum e => e.options
  | member m => m.options
  | service s => s.options
  | method m => m.options

def Outline.options (o : Outline) : List OptionDecl :=
  o.body.options ++ o.entries.flatMap fun e => e.item.options

def Outline.isExtended (o : Outline) : Bool :=
  o.options.any fun o => (o.first :: o.rest).any (·.isExtension)

end Descriptor
end ClientGen
