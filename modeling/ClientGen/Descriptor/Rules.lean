import ClientGen.Descriptor.Outline

/-! # Rules within one schema file

What can be checked of a file before its names are resolved: numbers and names are
used once and not where they are reserved, and each edition has its own rules for
labels, defaults and first members.
-/

namespace ClientGen
namespace Descriptor

def isIdentifier (s : String) : Bool :=
  let isStart (c : Char) : Bool := c == '_' || (c.toNat < 128 && c.isAlpha)
  match s.toList with
  | [] => false
  | c :: rest => isStart c && rest.all fun c => isStart c || c.isDigit

def sortRanges (rs : List TagRange) : List TagRange :=
  rs.mergeSort fun a b => decide (a.first < b.first ∨ (a.first = b.first ∧ a.stop ≤ b.stop))

/-- Checks that ranges in increasing order have no number in common. -/
def checkOverlap (what : String) : List TagRange → Checked Unit
  | a :: b :: rest =>
    if b.first < a.stop then complain b.place (what ++ " ranges overlap")
    else checkOverlap what (b :: rest)
  | _ => .ok ()

/-- The first range of extensions and reserved range that have a number in common:
the place of the one that starts later. -/
def commonPlace? (reserved extensions : List TagRange) : Option Place :=
  reserved.findSome? fun r => extensions.findSome? fun e =>
    if e.first ≤ r.first ∧ r.first < e.stop then some r.place
    else if r.first ≤ e.first ∧ e.first < r.stop then some e.place
    else none

def inRanges (rs : List TagRange) (n : Int) : Bool := rs.any fun r => r.first ≤ n && n < r.stop

def checkReservedNames (names : List Name) : Checked Unit :=
  names.forM fun n =>
    if isIdentifier n.text then .ok () else complain n.place "reserved name is not a valid identifier"

/-- Checks a field against the reservations of its message and the fields before it. -/
def checkUse (body : Body) (used : List Int) (f : Field) : Checked (List Int) := do
  let tag := f.decl.tag
  if body.reservedNames.any fun n => n.text == f.name then
    complain f.decl.name.place "field is using a reserved name"
  if used.contains tag.value then complain tag.place "two fields have the same tag"
  if inRanges body.reservedRanges tag.value then
    complain tag.place "field is using a tag which is in a reserved range"
  if inRanges body.extensionRanges tag.value then
    complain tag.place "field is using a tag which is in an extension range"
  return tag.value :: used

def checkMessage (isModern : Bool) (body : Body) : Checked Unit := do
  match body.extensionRanges with
  | r :: _ => if isModern then complain r.place "extension ranges are not allowed in proto3"
  | [] => pure ()
  if let some (o, on) ← findFlag "map_entry" body.options then
    if on then complain o.value.place "map_entry option should not be set explicitly"
  let reserved := sortRanges body.reservedRanges
  let extensions := sortRanges body.extensionRanges
  checkOverlap "reserved" reserved
  checkOverlap "extension" extensions
  if let some place := commonPlace? reserved extensions then
    complain place "extension range overlaps reserved range"
  checkReservedNames body.reservedNames
  discard (body.fields.foldlM (checkUse body) [])

def checkField (isModern : Bool) (f : Field) : Checked Unit := do
  let labelPlace := (f.decl.label.map (·.2)).getD f.decl.place
  if isModern then
    if f.form = .group then complain f.decl.type.place "groups are not allowed in proto3"
    if f.label = some .required then complain labelPlace "label 'required' is not allowed in proto3"
    if let some o ← findOption "default" f.decl.options then
      complain o.place "default values are not allowed in proto3"
  else
    if f.label.isNone ∧ f.oneof.isNone then
      complain f.decl.name.place "field has no label; proto2 requires explicit label"
    if f.extendee.isSome ∧ f.label = some .required then
      complain labelPlace "extension fields cannot be 'required'"

def checkMemberUse (e : Enum) (m : MemberDecl) : Checked Unit := do
  if e.reservedNames.any fun n => n.text == m.name.text then
    complain m.name.place "value is using a reserved name"
  if inRanges e.reservedRanges m.number.value then
    complain m.number.place "value is using a number which is in a reserved range"

def checkEnum (isModern : Bool) (e : Enum) : Checked Unit := do
  if e.members.isEmpty then complain e.place "enums must define at least one value"
  let aliasFlag? ← findFlag "allow_alias" e.options
  let mayShare := (aliasFlag?.map (·.2)).getD false
  if let some first := e.members.head? then
    if isModern ∧ first.number.value ≠ 0 then
      complain first.number.place "proto3 requires that first value in enum is 0"
  let shared ← e.members.foldlM (fun (used, shared) m => do
    let again : Bool := used.contains m.number.value
    if again && !mayShare then complain m.number.place "two values have the same number"
    return (m.number.value :: used, shared || again)) (([] : List Int), false)
  if let some (o, true) := aliasFlag? then
    if ¬ shared.2 then complain o.value.place "allow_alias is true but no values are aliases"
  checkOverlap "reserved" (sortRanges e.reservedRanges)
  checkReservedNames e.reservedNames
  e.members.forM (checkMemberUse e)

def checkImports (imports : List ImportDecl) : Checked Unit :=
  discard (imports.foldlM (fun (known : List String) i =>
    if known.contains i.path.text then complain i.place "file was already imported"
    else .ok (i.path.text :: known)) [])

def checkOutline (o : Outline) : Checked Unit := do
  checkImports o.body.imports
  o.entries.forM fun entry =>
    match entry.item with
    | .message (.mk _ _ _ body _) => checkMessage o.isModern body
    | .field f => checkField o.isModern f
    | .enum e => checkEnum o.isModern e
    | _ => .ok ()

end Descriptor
end ClientGen
