import ClientGen.Descriptor.Names

/-! # Linking

Every name in a file has to stand for something that fits its use: types of fields
are messages or enumerations, the ends of procedures are messages, and extensions
have numbers that the extended message leaves to them. A linked file has a
descriptor.
-/

namespace ClientGen
namespace Descriptor

def View.extension? (v : View) (around : List String) (name : String) : Option String :=
  match v.resolve? around false name with
  | some (full, .extension) => some full
  | _ => none

def View.checkExtension (v : View) (around : List String) (name : Name) : Checked Unit :=
  if (v.extension? around name.text).isSome then .ok ()
  else complain name.place ("unknown extension " ++ name.text)

mutual

/-- Checks the names of extensions inside a value, which are looked for in packages
only. -/
def View.checkValue (v : View) : Value → Checked Unit
  | .list _ items => v.checkValues items
  | .message _ fields => v.checkLiteral fields
  | _ => .ok ()

def View.checkValues (v : View) : List Value → Checked Unit
  | [] => .ok ()
  | x :: rest => do
    v.checkValue x
    v.checkValues rest

def View.checkLiteral (v : View) : List (LiteralKey × Bool × Value) → Checked Unit
  | [] => .ok ()
  | (key, _, x) :: rest => do
    if let .extension name := key then v.checkExtension [] name
    v.checkValue x
    v.checkLiteral rest

end

def View.checkOptions (v : View) (around : List String) (options : List OptionDecl) :
    Checked Unit :=
  options.forM fun o => do
    (o.first :: o.rest).forM fun part =>
      if part.isExtension then v.checkExtension around part.name else .ok ()
    v.checkValue o.value

/-- The messages that extensions in a file of the third edition may extend. -/
def optionMessages : List String :=
  ["FileOptions", "MessageOptions", "FieldOptions", "OneofOptions", "ExtensionRangeOptions",
    "EnumOptions", "EnumValueOptions", "ServiceOptions", "MethodOptions"].map
      ("google.protobuf." ++ ·)

/-- Checks what an extension extends. The numbers of extensions are kept. -/
def View.checkExtendee (v : View) (around : List String) (f : Field) (extendee : Name)
    (r : Registry) : Checked Registry :=
  match v.resolve? around false extendee.text with
  | some (full, .message _ ranges) =>
    let tag := f.decl.tag
    if ¬ ranges.any fun (first, stop) => first ≤ tag.value ∧ tag.value < stop then
      complain tag.place ("tag is not in valid range for extended type " ++ full)
    else if r.extensions.contains (full, tag.value) then
      complain tag.place ("extension with this tag for message " ++ full ++ " already defined")
    else .ok { r with extensions := (full, tag.value) :: r.extensions }
  | some (full, _) => complain extendee.place ("extendee is invalid: " ++ full ++ " is not a message")
  | none => complain extendee.place ("unknown extendee type " ++ extendee.text)

def View.checkType (v : View) (isModern : Bool) (around : List String) (f : Field) : Checked Unit :=
  if f.form = .plain ∧ scalarNames.contains f.type then .ok ()
  else match v.resolve? around true f.type with
    | some (full, .message isEntry _) =>
      if isEntry ∧ f.form ≠ .map then
        complain f.decl.type.place (full ++ " is a map entry and may not be referenced explicitly")
      else .ok ()
    | some (full, .enum isOpen) =>
      if isModern ∧ ¬ isOpen ∧ f.extendee.isNone then
        complain f.decl.type.place ("cannot use proto2 enum " ++ full ++ " in a proto3 message")
      else .ok ()
    | some (full, _) => complain f.decl.type.place ("invalid type: " ++ full)
    | none => complain f.decl.type.place ("unknown type " ++ f.type)

def View.checkEnd (v : View) (around : List String) (type : Name) : Checked Unit :=
  match v.resolve? around false type.text with
  | some (_, .message _ _) => .ok ()
  | _ => complain type.place ("unknown type " ++ type.text)

def View.checkField (v : View) (isModern : Bool) (around : List String) (f : Field) (r : Registry) :
    Checked Registry := do
  v.checkOptions around f.decl.options
  match f.extendee with
  | none =>
    v.checkType isModern around f
    return r
  | some extendee =>
    let r ← v.checkExtendee around f extendee r
    v.checkType isModern around f
    let full := ((v.resolve? around false extendee.text).map (·.1)).getD ""
    if isModern ∧ ¬ optionMessages.contains full then
      complain extendee.place "extend blocks in proto3 can only be used to define custom options"
    return r

def View.checkEntry (v : View) (isModern : Bool) (r : Registry) (e : Entry) : Checked Registry := do
  match e.item with
  | .message (.mk _ _ _ body _) =>
    v.checkOptions e.around body.options
    body.extensionRanges.forM fun range => v.checkOptions (e.fullName :: e.around) range.options
    return r
  | .field f => v.checkField isModern e.around f r
  | .oneof o => do v.checkOptions e.around o.options; return r
  | .enum x => do v.checkOptions e.around x.options; return r
  | .member m => do v.checkOptions e.around m.options; return r
  | .service s => do v.checkOptions e.around s.options; return r
  | .method m =>
    v.checkOptions e.around m.options
    v.checkEnd e.around m.request.type
    v.checkEnd e.around m.response.type
    return r

def View.checkNames (v : View) (o : Outline) (r : Registry) : Checked Registry := do
  v.checkOptions [] o.body.options
  o.entries.foldlM (v.checkEntry o.isModern) r

def View.kind (v : View) (around : List String) (f : Field) : FieldKind :=
  if f.form = .plain ∧ scalarNames.contains f.type then .scalar f.type
  else match v.resolve? around true f.type with
    | some (full, .enum _) => .enum full
    | some (full, _) => .message full
    | none => .message f.type

def View.field (v : View) (around : List String) (f : Field) : FieldDescriptor :=
  { name := f.name, number := f.decl.tag.value, label := f.label.getD .optional,
    kind := v.kind around f, oneof := f.oneof,
    extendee := f.extendee.map fun e => ((v.resolve? around false e.text).map (·.1)).getD e.text }

def enumDescriptor (isModern : Bool) (e : Enum) : EnumDescriptor :=
  { name := e.name.text, isOpen := isModern,
    members := e.members.map fun m => (m.name.text, m.number.value) }

mutual

def View.message (v : View) (isModern : Bool) (around : List String) (scope : String) :
    Message → MessageDescriptor
  | .mk _ name isEntry body nested =>
    let full := qualify scope name.text
    let inside := full :: around
    .mk { name := name.text, fields := body.fields.map (v.field inside),
          oneofs := body.oneofs.map (·.name.text), enums := body.enums.map (enumDescriptor isModern),
          extensions := body.extensions.map (v.field inside), isEntry }
      (v.messages isModern inside full nested)

def View.messages (v : View) (isModern : Bool) (around : List String) (scope : String) :
    List Message → List MessageDescriptor
  | [] => []
  | m :: rest => v.message isModern around scope m :: v.messages isModern around scope rest

end

def View.service (v : View) (scope : String) (s : Service) : ServiceDescriptor :=
  let around := [qualify scope s.name.text]
  let typeOf (e : EndDecl) : String :=
    "." ++ ((v.resolve? around false e.type.text).map (·.1)).getD e.type.text
  { name := s.name.text,
    methods := s.methods.map fun m =>
      { name := m.name.text, input := typeOf m.request, output := typeOf m.response,
        clientStream := m.request.isStream, serverStream := m.response.isStream } }

def View.file (v : View) (o : Outline) : FileDescriptor :=
  { name := o.path, edition := o.edition, package := o.package,
    dependencies := o.body.imports.map (·.path.text),
    messages := v.messages o.isModern [] o.package o.messages,
    enums := o.body.enums.map (enumDescriptor o.isModern),
    extensions := o.body.extensions.map (v.field []),
    services := o.body.services.map (v.service o.package) }

end Descriptor
end ClientGen
