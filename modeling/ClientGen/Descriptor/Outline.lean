import ClientGen.Descriptor.Basic
import ClientGen.Text.LetterCase

/-! # Outlines of schema files

An outline gathers the elements of a file by what they declare. Gathering checks
what concerns one element alone: numbers within their bounds, bodies that may not
be empty, and the depth of nesting.
-/

namespace ClientGen
namespace Descriptor

/-- Why a file cannot be described, and where. -/
structure Complaint where
  place : Place
  text : String
deriving DecidableEq, Repr, Inhabited

abbrev Checked := Except Complaint

def complain {α : Type} (place : Place) (text : String) : Checked α := .error ⟨place, text⟩

inductive Form where
  | plain | map | group
deriving DecidableEq, Repr, Inhabited

structure Field where
  name : String
  decl : FieldDecl
  form : Form := .plain
  /-- The name of its type, as it is to be resolved. -/
  type : String
  label : Option Label := none
  extendee : Option Name := none
  oneof : Option Nat := none
deriving Repr, Inhabited

/-- A range of numbers; the last one is not in it. -/
structure TagRange where
  first : Int
  stop : Int
  place : Place := {}
  options : List OptionDecl := []
deriving Repr, Inhabited

structure Oneof where
  name : Name
  options : List OptionDecl := []
deriving Repr, Inhabited

structure Enum where
  place : Place := {}
  name : Name
  members : List MemberDecl := []
  options : List OptionDecl := []
  reservedRanges : List TagRange := []
  reservedNames : List Name := []
deriving Repr, Inhabited

structure Service where
  name : Name
  methods : List MethodDecl := []
  options : List OptionDecl := []
deriving Repr, Inhabited

/-- What the body of a message declares, but for messages. A file has such a body
too, and only there are services, imports and a package. -/
structure Body where
  options : List OptionDecl := []
  fields : List Field := []
  oneofs : List Oneof := []
  enums : List Enum := []
  extensions : List Field := []
  extensionRanges : List TagRange := []
  reservedRanges : List TagRange := []
  reservedNames : List Name := []
  services : List Service := []
  imports : List ImportDecl := []
  package : Option Name := none
deriving Repr, Inhabited

/-- A message. The entry of a map field is one that is made for it. -/
inductive Message where
  | mk (place : Place) (name : Name) (isEntry : Bool) (body : Body) (nested : List Message)
deriving Repr, Inhabited

structure Outline where
  path : String
  /-- The edition, where it is not the oldest one. -/
  edition : String := ""
  body : Body := {}
  messages : List Message := []
  /-- Whether the file is one of the standard files, whose places mean nothing. -/
  isStandard : Bool := false
deriving Repr, Inhabited

/-- Whether a file is of the third edition, in which fields need no label. -/
def Outline.isModern (o : Outline) : Bool := o.edition = "proto3"

def Outline.package (o : Outline) : String := (o.body.package.map (·.text)).getD ""

def largestTag : Int := 536870911

/-- The largest number of an extension of a message whose members are items of a
set. -/
def largestItem : Int := (1 <<< 31) - 2

def leastInt32 : Int := -(1 <<< 31)
def largestInt32 : Int := (1 <<< 31) - 1

def checkTag (largest : Int) (tag : Numeral) : Checked Unit :=
  if tag.value < 1 then complain tag.place "tag number must be greater than zero"
  else if tag.value > largest then
    complain tag.place "tag number is higher than max allowed tag number"
  else if 19000 ≤ tag.value ∧ tag.value ≤ 19999 then
    complain tag.place "tag number is in disallowed reserved range 19000-19999"
  else .ok ()

def checkRange (least largest : Int) (options : List OptionDecl) (r : RangeDecl) :
    Checked TagRange := do
  let isOutside (n : Int) : Bool := n < least || largest < n
  if isOutside r.first.value then complain r.first.place "range start is out of range"
  let last ← match r.last with
    | .same => pure r.first.value
    | .largest => pure largest
    | .upTo n =>
      if isOutside n.value then complain n.place "range end is out of range" else pure n.value
  if last < r.first.value then
    complain r.first.place "range is invalid: start must not be after end"
  return { first := r.first.value, stop := last + 1, place := r.first.place, options }

/-- The only option of a plain name, unless it is given more than once. -/
def findOption (name : String) (options : List OptionDecl) : Checked (Option OptionDecl) :=
  match options.filter fun o => !o.first.isExtension && o.first.name.text == name && o.rest.isEmpty with
  | [] => .ok none
  | [o] => .ok (some o)
  | _ :: o :: _ => complain o.place ("option " ++ name ++ " cannot be defined more than once")

def findFlag (name : String) (options : List OptionDecl) : Checked (Option (OptionDecl × Bool)) := do
  match ← findOption name options with
  | none => return none
  | some o =>
    match o.value with
    | .word w =>
      if w.text = "true" then return some (o, true)
      else if w.text = "false" then return some (o, false)
      else complain w.place ("expecting bool value for " ++ name ++ " option")
    | v => complain v.place ("expecting bool value for " ++ name ++ " option")

def enumOf (place : Place) (name : Name) (elements : List Element) : Checked Enum :=
  elements.foldlM (fun (e : Enum) element => do
    match element with
    | .option o => return { e with options := e.options ++ [o] }
    | .member m =>
      if m.number.value < leastInt32 ∨ largestInt32 < m.number.value then
        complain m.number.place "value is out of range"
      return { e with members := e.members ++ [m] }
    | .reservedNames names => return { e with reservedNames := e.reservedNames ++ names }
    | .reserved ranges =>
      let ranges ← ranges.mapM (checkRange leastInt32 largestInt32 [])
      return { e with reservedRanges := e.reservedRanges ++ ranges }
    | _ => return e) { place, name }

def serviceOf (name : Name) (elements : List Element) : Service :=
  elements.foldl (fun (s : Service) element =>
    match element with
    | .option o => { s with options := s.options ++ [o] }
    | .method m => { s with methods := s.methods ++ [m] }
    | _ => s) { name }

def entryName (field : String) : String :=
  let capital (part : String) : String := match part.toList with
    | c :: rest => String.ofList (Text.upperChar c :: rest)
    | [] => ""
  String.join ((Text.split field "_").map capital) ++ "Entry"

def entryOf (key : Name) (f : FieldDecl) : Message :=
  let part (name : String) (number : Int) (type : Name) : Field :=
    { name, type := type.text, label := some .optional,
      decl := { place := f.place, type, name := ⟨name, type.place⟩, tag := ⟨number, f.tag.place⟩ } }
  .mk f.place ⟨entryName f.name.text, f.name.place⟩ true
    { fields := [part "key" 1 key, part "value" 2 f.type] } []

def plainField (largest : Int) (extendee : Option Name) (oneof : Option Nat) (f : FieldDecl) :
    Checked Field := do
  checkTag largest f.tag
  return { name := f.name.text, decl := f, type := f.type.text, label := f.label.map (·.1),
           extendee, oneof }

def itemSet? (elements : List Element) : Checked (Option OptionDecl) := do
  let options := elements.filterMap fun
    | .option o => some o
    | _ => none
  return match ← findFlag "message_set_wire_format" options with
    | some (o, true) => some o
    | _ => none

/-- Messages are nested less than 32 deep. -/
def checkDepth (depth : Nat) (place : Place) : Checked Unit :=
  if depth < 32 then .ok () else complain place "message nesting depth must be less than 32"

def checkItemSet (option? : Option OptionDecl) (body : Body) : Checked Unit :=
  match option?, body.fields with
  | none, _ => .ok ()
  | some _, f :: _ => complain f.decl.place "message sets cannot contain non-extension fields"
  | some o, [] =>
    if body.extensionRanges.isEmpty then
      complain o.place "message sets must contain at least one extension range"
    else .ok ()

structure Site where
  isModern : Bool
  depth : Nat
  largest : Int := largestTag
  extendee : Option Name := none
  oneof : Option Nat := none

/-- Adds a field to those of the message, or an extension to the extensions. -/
def put (site : Site) (f : Field) (body : Body) : Body :=
  if site.extendee.isSome then { body with extensions := body.extensions ++ [f] }
  else { body with fields := body.fields ++ [f] }

abbrev Gathered := Body × List Message

mutual

def gather (site : Site) (g : Gathered) : Element → Checked Gathered
  | .option o =>
    .ok (if site.oneof.isSome then
        { g.1 with oneofs := g.1.oneofs.modify (g.1.oneofs.length - 1) fun c =>
            { c with options := c.options ++ [o] } }
      else { g.1 with options := g.1.options ++ [o] }, g.2)
  | .imported i => .ok ({ g.1 with imports := g.1.imports ++ [i] }, g.2)
  | .package place name =>
    if g.1.package.isSome then complain place "files should have only one package declaration"
    else if 512 ≤ name.text.utf8ByteSize then
      complain name.place "package name must be less than 512 characters long"
    else if 100 < (name.text.toList.filter (· == '.')).length then
      complain name.place "package name may not contain more than 100 periods"
    else .ok ({ g.1 with package := some name }, g.2)
  | .field f => do
    let field ← plainField site.largest site.extendee site.oneof f
    return (put site field g.1, g.2)
  | .map key f => do
    checkTag site.largest f.tag
    checkDepth (site.depth + 1) f.place
    let field : Field := { name := f.name.text, decl := f, form := .map,
                           type := entryName f.name.text, label := some .repeated }
    return (put site field g.1, g.2 ++ [entryOf key f])
  | .group f elements => do
    checkTag site.largest f.tag
    if ¬ (f.name.text.toList.head?.map Char.isUpper).getD false then
      complain f.name.place "group should have a name that starts with a capital letter"
    let field : Field := { name := Text.lower f.name.text, decl := f, form := .group,
                           type := f.name.text, label := f.label.map (·.1),
                           extendee := site.extendee, oneof := site.oneof }
    checkDepth (site.depth + 1) f.type.place
    let option? ← itemSet? elements
    let inner : Site := { isModern := site.isModern, depth := site.depth + 1,
                          largest := if option?.isSome then largestItem else largestTag }
    let (body, nested) ← gatherAll inner ({}, []) elements
    checkItemSet option? body
    return (put site field g.1, g.2 ++ [.mk f.place f.name false body nested])
  | .oneof place name elements => do
    let index := g.1.oneofs.length
    let before := g.1.fields.length
    let start : Gathered := ({ g.1 with oneofs := g.1.oneofs ++ [{ name }] }, g.2)
    let (body, nested) ← gatherAll { site with oneof := some index } start elements
    if body.fields.length = before then
      complain place "oneof must contain at least one field"
    return (body, nested)
  | .message place name elements => do
    checkDepth (site.depth + 1) place
    let option? ← itemSet? elements
    if let some o := option? then
      if site.isModern then complain o.place "message sets are not allowed with proto3 syntax"
    let inner : Site := { isModern := site.isModern, depth := site.depth + 1,
                          largest := if option?.isSome then largestItem else largestTag }
    let (body, nested) ← gatherAll inner ({}, []) elements
    checkItemSet option? body
    return (g.1, g.2 ++ [.mk place name false body nested])
  | .enum place name elements => do
    let e ← enumOf place name elements
    return ({ g.1 with enums := g.1.enums ++ [e] }, g.2)
  | .member _ => .ok g
  | .extend place extendee elements => do
    let inner : Site := { site with largest := largestItem, extendee := some extendee, oneof := none }
    let (body, nested) ← gatherAll inner g elements
    if elements.isEmpty then complain place "extend sections must define at least one extension"
    return (body, nested)
  | .extensions _ ranges options => do
    let ranges ← ranges.mapM (checkRange 1 site.largest options)
    return ({ g.1 with extensionRanges := g.1.extensionRanges ++ ranges }, g.2)
  | .reserved ranges => do
    let ranges ← ranges.mapM (checkRange 1 site.largest [])
    return ({ g.1 with reservedRanges := g.1.reservedRanges ++ ranges }, g.2)
  | .reservedNames names => do
    let known ← names.foldlM (fun (known : List Name) n =>
      if known.any fun k => k.text == n.text then complain n.place "name is reserved multiple times"
      else .ok (known ++ [n])) g.1.reservedNames
    return ({ g.1 with reservedNames := known }, g.2)
  | .service _ name elements =>
    .ok ({ g.1 with services := g.1.services ++ [serviceOf name elements] }, g.2)
  | .method _ => .ok g
  | .empty => .ok g

def gatherAll (site : Site) (g : Gathered) : List Element → Checked Gathered
  | [] => .ok g
  | e :: rest => do
    let g ← gather site g e
    gatherAll site g rest

end

def outlineOf (path : String) (s : FileSyntax) : Checked Outline := do
  let edition := (s.edition.map (·.text)).getD "proto2"
  if edition ≠ "proto2" ∧ edition ≠ "proto3" then
    complain ((s.edition.map (·.place)).getD {}) "syntax value must be \"proto2\" or \"proto3\""
  let isModern : Bool := edition = "proto3"
  let (body, messages) ← gatherAll { isModern, depth := 0 } ({}, []) s.elements
  return { path, edition := if isModern then edition else "", body, messages }

inductive Item where
  | message (m : Message)
  | field (f : Field)
  | oneof (o : Oneof)
  | enum (e : Enum)
  | member (m : MemberDecl)
  | service (s : Service)
  | method (m : MethodDecl)
deriving Repr, Inhabited

/-- A declaration with its full name and the full names of the messages around it,
or of the service, innermost first. -/
structure Entry where
  fullName : String
  around : List String
  item : Item
deriving Repr, Inhabited

def Item.name : Item → Name
  | message (.mk _ name _ _ _) => name
  | field f => f.decl.name
  | oneof o => o.name
  | enum e => e.name
  | member m => m.name
  | service s => s.name
  | method m => m.name

def fieldEntries (around : List String) (scope : String) (fs : List Field) : List Entry :=
  fs.map fun f => ⟨qualify scope f.name, around, .field f⟩

/-- The entries of enumerations inside a scope. Their members belong to that scope
as well. -/
def enumEntries (around : List String) (scope : String) (es : List Enum) : List Entry :=
  es.flatMap fun e => ⟨qualify scope e.name.text, around, .enum e⟩ ::
    e.members.map fun m => ⟨qualify scope m.name.text, around, .member m⟩

mutual

def Message.entries (around : List String) (scope : String) : Message → List Entry
  | .mk place name isEntry body nested =>
    let full := qualify scope name.text
    let inside := full :: around
    ⟨full, around, .message (.mk place name isEntry body nested)⟩ ::
      fieldEntries inside full body.fields ++
      body.oneofs.map (fun o => ⟨qualify full o.name.text, inside, .oneof o⟩) ++
      entriesOfAll inside full nested ++ enumEntries inside full body.enums ++
      fieldEntries inside full body.extensions

def entriesOfAll (around : List String) (scope : String) : List Message → List Entry
  | [] => []
  | m :: rest => m.entries around scope ++ entriesOfAll around scope rest

end

def serviceEntries (scope : String) (s : Service) : List Entry :=
  let full := qualify scope s.name.text
  ⟨full, [], .service s⟩ ::
    s.methods.map fun m => ⟨qualify full m.name.text, [full], .method m⟩

/-- All declarations of a file, each after what it is declared in. -/
def Outline.entries (o : Outline) : List Entry :=
  let scope := o.package
  entriesOfAll [] scope o.messages ++ enumEntries [] scope o.body.enums ++
    fieldEntries [] scope o.body.extensions ++ o.body.services.flatMap (serviceEntries scope)

end Descriptor
end ClientGen
