import ClientGen.Proofs.Proto.OptionSpelling

/-! # Spelling Protobuf files

A written file: its statements in any order, with empty statements, reservations,
extension ranges and extension blocks among them wherever the grammar has a place
for them. Each written form has its tokens and the tree that it stands for; a
tree has many forms, and they differ in what a tree does not keep.

For every form, `spelled` gives the tokens, `tree` what it stands for without
positions, and `spellable` says whether it can be written. For every tree, `erase`
leaves out the positions.
-/

namespace ClientGen
namespace Proto

open Source

/-! ## Trees without positions -/

def FieldTree.erase (f : FieldTree) : FieldTree :=
  { f with origin := {}, options := f.options.map OptionTree.erase }

def MemberTree.erase (m : MemberTree) : MemberTree :=
  { m with origin := {}, options := m.options.map OptionTree.erase }

def EnumTree.erase (e : EnumTree) : EnumTree :=
  { e with origin := {}, members := e.members.map MemberTree.erase,
           options := e.options.map OptionTree.erase }

mutual

def MessageTree.erase : MessageTree → MessageTree
  | .mk _ name fields messages enums options =>
    .mk {} name (fields.map FieldTree.erase) (eraseMessages messages)
      (enums.map EnumTree.erase) (options.map OptionTree.erase)

def eraseMessages : List MessageTree → List MessageTree
  | [] => []
  | m :: ms => m.erase :: eraseMessages ms

end

def RpcTree.erase (r : RpcTree) : RpcTree :=
  { r with origin := {}, options := r.options.map OptionTree.erase }

def ServiceTree.erase (s : ServiceTree) : ServiceTree :=
  { s with origin := {}, rpcs := s.rpcs.map RpcTree.erase,
           options := s.options.map OptionTree.erase }

def Definition.erase : Definition → Definition
  | message m => message m.erase
  | enum e => enum e.erase
  | service s => service s.erase

def ImportTree.erase (i : ImportTree) : ImportTree :=
  { i with position := {}, pathPosition := {} }

def Tree.erase (t : Tree) : Tree :=
  { t with imports := t.imports.map ImportTree.erase, options := t.options.map OptionTree.erase,
           definitions := t.definitions.map Definition.erase }

/-! ## Statements that a tree does not keep -/

/-- How many braces some tokens open. -/
def opened (fs : List Face) : Nat := fs.countP fun f => f.kind == .curlyOpen

/-- How many braces some tokens close. -/
def closed (fs : List Face) : Nat := fs.countP fun f => f.kind == .curlyClose

/-- Whether braces are balanced: none is closed before it is opened, and all that
are opened are closed. -/
def balanced (body : List Face) : Bool :=
  ((List.range body.length).all fun n => closed (body.take (n + 1)) ≤ opened (body.take (n + 1))) &&
    closed body == opened body

/-- A type name, perhaps behind a dot. -/
def spellTypeName (name : String) : List Face :=
  match name.toList with
  | '.' :: rest => Face.mark .dot :: Face.dotted (String.ofList rest)
  | _ => Face.dotted name

/-- A reservation or the declaration of an extension range: everything through
the next semicolon. -/
def spellSkipped (word : String) (body : List Face) : List Face :=
  Face.word word :: (body ++ [Face.mark .semicolon])

/-- Whether no semicolon ends a skipped statement early. -/
def skippable (body : List Face) : Bool := body.all fun f => f.kind != .semicolon

def spellExtend (type : String) (body : List Face) : List Face :=
  Face.word "extend" ::
    (spellTypeName type ++ Face.mark .curlyOpen :: (body ++ [Face.mark .curlyClose]))

/-- An item of a body: an empty statement, an option, a skipped statement or one
of the elements that the body is for. -/
inductive BodyForm (α : Type) where
  | empty
  | option (o : OptionForm)
  | skipped (word : String) (body : List Face)
  | element (a : α)

namespace BodyForm

variable {α : Type}

def spelled (spell : α → List Face) : BodyForm α → List Face
  | empty => [Face.mark .semicolon]
  | option o => spellStatement o
  | skipped word body => spellSkipped word body
  | element a => spell a

def entries : BodyForm α → List OptionTree
  | option o => o.entries
  | _ => []

def element? : BodyForm α → Option α
  | element a => some a
  | _ => none

/-- Whether an item can be written in a body that skips the statements of some
words. -/
def spellable (words : List String) (p : α → Bool) : BodyForm α → Bool
  | empty => true
  | option o => o.spellable
  | skipped word body => words.contains word && skippable body
  | element a => p a

end BodyForm

/-! ## Fields -/

def Label.faces : Label → List Face
  | none => []
  | optional => [Face.word "optional"]
  | required => [Face.word "required"]
  | repeated => [Face.word "repeated"]

def TypeTree.spelled : TypeTree → List Face
  | name n => spellTypeName n
  | map key value =>
    Face.word "map" :: Face.mark .angleOpen ::
      (spellTypeName key ++ Face.mark .comma :: (spellTypeName value ++ [Face.mark .angleClose]))

def fieldWords : List String :=
  ["option", "message", "enum", "oneof", "reserved", "extensions", "extend", "optional",
   "required", "repeated", "map"]

/-- Whether the name of a type is not taken for a statement, a label or a map. -/
def TypeTree.plain : TypeTree → Bool
  | name n => !fieldWords.contains (firstComponent n)
  | map _ _ => true

structure FieldForm where
  label : Label := .none
  type : TypeTree
  name : String
  number : Int
  options : List OptionForm := []

namespace FieldForm

def spelled (f : FieldForm) : List Face :=
  f.label.faces ++ (f.type.spelled ++ Face.word f.name :: Face.mark .equal ::
    (Face.integer f.number ++ (spellBrackets f.options ++ [Face.mark .semicolon])))

def tree (oneof : Option String) (f : FieldForm) : FieldTree :=
  { label := f.label, type := f.type, name := f.name, number := f.number, oneof,
    options := f.options.flatMap OptionForm.entries }

def spellable (f : FieldForm) : Bool :=
  f.type.plain && decide (InRange f.number) && f.options.all OptionForm.spellable

end FieldForm

/-- A choice as it is written. Its options are not kept in the tree. -/
structure OneofForm where
  name : String
  items : List (BodyForm FieldForm)

namespace OneofForm

def spelled (c : OneofForm) : List Face :=
  Face.word "oneof" :: Face.word c.name :: Face.mark .curlyOpen ::
    (c.items.flatMap (BodyForm.spelled FieldForm.spelled) ++ [Face.mark .curlyClose])

def fields (c : OneofForm) : List FieldTree :=
  (c.items.filterMap BodyForm.element?).map (FieldForm.tree (some c.name))

def spellable (c : OneofForm) : Bool := c.items.all (BodyForm.spellable [] FieldForm.spellable)

end OneofForm

/-! ## Enumerations -/

structure MemberForm where
  name : String
  number : Int
  options : List OptionForm := []

namespace MemberForm

def spelled (m : MemberForm) : List Face :=
  Face.word m.name :: Face.mark .equal ::
    (Face.integer m.number ++ (spellBrackets m.options ++ [Face.mark .semicolon]))

def tree (m : MemberForm) : MemberTree :=
  { name := m.name, number := m.number, options := m.options.flatMap OptionForm.entries }

/-- Whether a member can be written: its name opens no other statement. -/
def spellable (m : MemberForm) : Bool :=
  !(["option", "reserved"].contains m.name) && decide (InRange m.number) &&
    m.options.all OptionForm.spellable

end MemberForm

structure EnumForm where
  name : String
  items : List (BodyForm MemberForm)

namespace EnumForm

def spelled (e : EnumForm) : List Face :=
  Face.word "enum" :: Face.word e.name :: Face.mark .curlyOpen ::
    (e.items.flatMap (BodyForm.spelled MemberForm.spelled) ++ [Face.mark .curlyClose])

def tree (e : EnumForm) : EnumTree :=
  { name := e.name, members := (e.items.filterMap BodyForm.element?).map MemberForm.tree,
    options := e.items.flatMap BodyForm.entries }

def spellable (e : EnumForm) : Bool :=
  e.items.all (BodyForm.spellable ["reserved"] MemberForm.spellable)

end EnumForm

/-! ## Messages -/

inductive ItemForm where
  | empty
  | option (o : OptionForm)
  | skipped (word : String) (body : List Face)
  | extend (type : String) (body : List Face)
  | field (f : FieldForm)
  | oneof (c : OneofForm)
  | enum (e : EnumForm)
  | message (name : String) (items : List ItemForm)

mutual

def ItemForm.spelled : ItemForm → List Face
  | .empty => [Face.mark .semicolon]
  | .option o => spellStatement o
  | .skipped word body => spellSkipped word body
  | .extend type body => spellExtend type body
  | .field f => f.spelled
  | .oneof c => c.spelled
  | .enum e => e.spelled
  | .message name items =>
    Face.word "message" :: Face.word name :: Face.mark .curlyOpen ::
      (spellItems items ++ [Face.mark .curlyClose])

def spellItems : List ItemForm → List Face
  | [] => []
  | i :: is => i.spelled ++ spellItems is

end

namespace ItemForm

def entries : ItemForm → List OptionTree
  | option o => o.entries
  | _ => []

def fields : ItemForm → List FieldTree
  | field f => [f.tree none]
  | oneof c => c.fields
  | _ => []

def enum? : ItemForm → Option EnumTree
  | enum e => some e.tree
  | _ => none

end ItemForm

mutual

def ItemForm.message? : ItemForm → Option MessageTree
  | .message name items =>
    some (.mk {} name (items.flatMap ItemForm.fields) (messagesOf items)
      (items.filterMap ItemForm.enum?) (items.flatMap ItemForm.entries))
  | _ => none

def messagesOf : List ItemForm → List MessageTree
  | [] => []
  | i :: is => i.message?.toList ++ messagesOf is

end

def messageOf (name : String) (items : List ItemForm) : MessageTree :=
  .mk {} name (items.flatMap ItemForm.fields) (messagesOf items)
    (items.filterMap ItemForm.enum?) (items.flatMap ItemForm.entries)

mutual

def ItemForm.spellable : ItemForm → Bool
  | .empty => true
  | .option o => o.spellable
  | .skipped word body => ["reserved", "extensions"].contains word && skippable body
  | .extend _ body => balanced body
  | .field f => f.spellable
  | .oneof c => c.spellable
  | .enum e => e.spellable
  | .message _ items => spellableItems items

def spellableItems : List ItemForm → Bool
  | [] => true
  | i :: is => i.spellable && spellableItems is

end

/-! ## Services -/

def EndTree.spelled (e : EndTree) : List Face :=
  Face.mark .parenOpen :: ((if e.stream then [Face.word "stream"] else []) ++
    (spellTypeName e.name ++ [Face.mark .parenClose]))

/-- Whether the name of a message is not taken for the mark of a stream. -/
def EndTree.plain (e : EndTree) : Bool := firstComponent e.name != "stream"

/-- A remote procedure as it is written. Without braces it has no items. -/
structure RpcForm where
  name : String
  request : EndTree
  response : EndTree
  body : Option (List (BodyForm Empty)) := none

namespace RpcForm

def spellBody : Option (List (BodyForm Empty)) → List Face
  | none => [Face.mark .semicolon]
  | some items =>
    Face.mark .curlyOpen ::
      (items.flatMap (BodyForm.spelled fun _ => []) ++ [Face.mark .curlyClose])

def spelled (r : RpcForm) : List Face :=
  Face.word "rpc" :: Face.word r.name ::
    (r.request.spelled ++ Face.word "returns" :: (r.response.spelled ++ spellBody r.body))

def tree (r : RpcForm) : RpcTree :=
  { name := r.name, request := r.request, response := r.response,
    options := (r.body.getD []).flatMap BodyForm.entries }

def spellable (r : RpcForm) : Bool :=
  r.request.plain && r.response.plain &&
    (r.body.getD []).all (BodyForm.spellable [] fun _ => true)

end RpcForm

structure ServiceForm where
  name : String
  items : List (BodyForm RpcForm)

namespace ServiceForm

def spelled (s : ServiceForm) : List Face :=
  Face.word "service" :: Face.word s.name :: Face.mark .curlyOpen ::
    (s.items.flatMap (BodyForm.spelled RpcForm.spelled) ++ [Face.mark .curlyClose])

def tree (s : ServiceForm) : ServiceTree :=
  { name := s.name, rpcs := (s.items.filterMap BodyForm.element?).map RpcForm.tree,
    options := s.items.flatMap BodyForm.entries }

def spellable (s : ServiceForm) : Bool :=
  s.items.all (BodyForm.spellable [] RpcForm.spellable)

end ServiceForm

/-! ## Files -/

def Modifier.faces : Modifier → List Face
  | plain => []
  | weak => [Face.word "weak"]
  | reexported => [Face.word "public"]

inductive FileForm where
  | empty
  | option (o : OptionForm)
  | extend (type : String) (body : List Face)
  /-- What the file is written in; there are two words for it. -/
  | edition (word : String) (name : String)
  | package (name : String)
  | imported (modifier : Modifier) (path : String)
  | message (name : String) (items : List ItemForm)
  | enum (e : EnumForm)
  | service (s : ServiceForm)

namespace FileForm

def spelled : FileForm → List Face
  | empty => [Face.mark .semicolon]
  | option o => spellStatement o
  | extend type body => spellExtend type body
  | edition word name =>
    [Face.word word, Face.mark .equal, Face.text name, Face.mark .semicolon]
  | package name => Face.word "package" :: (Face.dotted name ++ [Face.mark .semicolon])
  | imported modifier path =>
    Face.word "import" :: (modifier.faces ++ [Face.text path, Face.mark .semicolon])
  | message name items => (ItemForm.message name items).spelled
  | enum e => e.spelled
  | service s => s.spelled

def spellable : FileForm → Bool
  | option o => o.spellable
  | extend _ body => balanced body
  | edition word _ => ["syntax", "edition"].contains word
  | message _ items => spellableItems items
  | enum e => e.spellable
  | service s => s.spellable
  | _ => true

def edition? : FileForm → Option String
  | edition _ name => some name
  | _ => none

def package? : FileForm → Option String
  | package name => some name
  | _ => none

def import? : FileForm → Option ImportTree
  | imported modifier path => some { modifier, path }
  | _ => none

def entries : FileForm → List OptionTree
  | option o => o.entries
  | _ => []

def definition? : FileForm → Option Definition
  | message name items => some (.message (messageOf name items))
  | enum e => some (.enum e.tree)
  | service s => some (.service s.tree)
  | _ => none

end FileForm

/-- The file of some items. A later edition or package replaces the one before. -/
def treeOf (items : List FileForm) : Tree :=
  { edition := (items.filterMap FileForm.edition?).getLastD ""
    package := (items.filterMap FileForm.package?).getLastD ""
    imports := items.filterMap FileForm.import?
    options := items.flatMap FileForm.entries
    definitions := items.filterMap FileForm.definition? }

end Proto
end ClientGen
