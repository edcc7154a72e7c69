import ClientGen.Descriptor.Link
import ClientGen.Descriptor.Options

/-! # Names in JSON

Fields and members of enumerations have names in JSON, by default their own in
camel case. In files of the third edition no two of a message or enumeration may
agree; names that are given may never agree with another one.
-/

namespace ClientGen
namespace Descriptor

/-- The name of a field in JSON: a letter after an underscore is a capital. -/
def jsonName (name : String) : String :=
  let rec go (raise : Bool) : List Char → List Char
    | [] => []
    | c :: rest =>
      if c == '_' then go true rest
      else (if raise then Text.upperChar c else c) :: go false rest
  String.ofList (go false name.toList)

def givenJsonName? (f : Field) : Option String :=
  f.decl.options.findSome? fun o =>
    match o.value with
    | .text s =>
      if o.first.name.text = "json_name" ∧ ¬ o.first.isExtension ∧ o.rest.isEmpty then some s.text
      else none
    | _ => none

/-- Checks that the names of fields in JSON differ. `given` says whether names that
options give count; conflicts between defaults are then passed over. -/
def checkJsonNames (isModern given : Bool) (fields : List Field) : Checked Unit :=
  discard (fields.foldlM (fun (seen : List (String × Bool)) f =>
    let custom := if given then givenJsonName? f else none
    let name := custom.getD (jsonName f.name)
    match List.lookup name seen with
    | none => .ok ((name, custom.isSome) :: seen)
    | some other =>
      let isGiven := custom.isSome || other
      if (!given || isGiven) && (isModern || isGiven) then
        complain f.decl.place ("JSON name " ++ name ++ " conflicts with that of another field")
      else .ok seen) [])

/-- Drops what matches a start but for case and underscores, and the underscores
after it, unless that is all of the name. -/
def dropStartLoosely : List Char → List Char → List Char → List Char
  | whole, [], _ => whole
  | whole, '_' :: rest, start => dropStartLoosely whole rest start
  | whole, c :: rest, start =>
    match start.dropWhile (· == '_') with
    | [] =>
      let left := (c :: rest).dropWhile (· == '_')
      if left.isEmpty then whole else left
    | s :: more =>
      if Text.lowerChar c == Text.lowerChar s then dropStartLoosely whole rest more else whole

/-- The name of a member in JSON: without the name of its enumeration, and with a
capital for each word. -/
def memberJsonName (enum member : String) : String :=
  let rec go (raise : Bool) : List Char → List Char
    | [] => []
    | c :: rest =>
      if c == '_' then go true rest
      else (if raise then Text.upperChar c else Text.lowerChar c) :: go false rest
  String.ofList (go true (dropStartLoosely member.toList member.toList enum.toList))

/-- Checks that the names of members of different numbers differ in JSON. -/
def checkMemberNames (isModern : Bool) (e : Enum) : Checked Unit :=
  discard (e.members.foldlM (fun (seen : List (String × Int)) m =>
    let name := memberJsonName e.name.text m.name.text
    match List.lookup name seen with
    | none => .ok ((name, m.number.value) :: seen)
    | some number =>
      if number ≠ m.number.value ∧ isModern then
        complain m.name.place ("camel-case name " ++ name ++ " conflicts with that of another value")
      else .ok seen) [])

def checkPacked (v : View) (around : List String) (f : Field) : Checked Unit :=
  let isOn := f.decl.options.any fun o =>
    match o.value with
    | .word w => !o.first.isExtension && o.first.name.text == "packed" && o.rest.isEmpty && w.text == "true"
    | _ => false
  if ¬ isOn then .ok ()
  else if f.label ≠ some .repeated then
    complain f.decl.place "packed option is only allowed on repeated fields"
  else match v.kind around f with
    | .message _ => complain f.decl.type.place "packed option is only allowed on numeric fields"
    | .scalar type =>
      if type = "string" ∨ type = "bytes" then
        complain f.decl.type.place "packed option is only allowed on numeric fields"
      else .ok ()
    | .enum _ => .ok ()

/-- Whether a message keeps the conflicts of names in JSON that it always had. -/
def keepsConflicts (options : List OptionDecl) : Bool :=
  options.any fun o =>
    match o.value with
    | .word w => o.first.name.text == "deprecated_legacy_json_field_conflicts" && w.text == "true"
    | _ => false

/-- Checks the names in JSON and the packing of all declarations of a file. -/
def checkSpelling (v : View) (o : Outline) : Checked Unit :=
  o.entries.forM fun e =>
    match e.item with
    | .message (.mk _ _ _ body _) =>
      if keepsConflicts body.options then .ok ()
      else do
        checkJsonNames o.isModern false body.fields
        checkJsonNames o.isModern true body.fields
    | .field f => checkPacked v e.around f
    | .enum x => if keepsConflicts x.options then .ok () else checkMemberNames o.isModern x
    | _ => .ok ()

end Descriptor
end ClientGen
