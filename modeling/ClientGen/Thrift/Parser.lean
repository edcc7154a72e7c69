import ClientGen.Document.Literal
import ClientGen.Thrift.Tree

/-! # Parsing Thrift

Recursive descent over the significant tokens. Keywords are identifiers with a
certain spelling; a comma or a semicolon may close most items. Each production
gives no value once it has met a token that the grammar does not allow, which it
has then reported.
-/

namespace ClientGen
namespace Thrift

open Source
open Source.Parser

def annotationValue : Parser String := do
  if ← accept .equal then
    let v ← expectOf [.text, .integerDecimal, .identifier]
    return v.value
  else return ""

/-- One annotation: a dotted key and perhaps a value. -/
def annotation : Parser Annotation := do
  let position ← here
  let key ← dottedName
  let value ← annotationValue
  separator
  return { key, value, position }

def annotations : Parser (List Annotation) := do
  if ← accept .parenOpen then upTo .parenClose annotation else return []

/-- Passes over a foreign type name. A missing text is reported and does not stop
the type from being read on. -/
def foreignType : Parser Unit := do
  if (← acceptWord ["cpp_type"]).isSome then
    let _ ← attempt (expect .text)

def fieldType : Nat → Parser TypeTree
  | 0 => illegal
  | fuel + 1 => do
    let position ← here
    if ← isWord ["map"] then
      advance
      foreignType
      let _ ← expect .angleOpen
      let key ← fieldType fuel
      let _ ← expect .comma
      let value ← fieldType fuel
      let _ ← expect .angleClose
      return .map position key value (← annotations)
    else if ← isWord ["list"] then
      advance
      foreignType
      let _ ← expect .angleOpen
      let element ← fieldType fuel
      let _ ← expect .angleClose
      return .list position element (← annotations)
    else if ← isWord ["set"] then
      advance
      foreignType
      let _ ← expect .angleOpen
      let element ← fieldType fuel
      let _ ← expect .angleClose
      return .set position element (← annotations)
    else
      let name ← dottedName
      return .name position name (← annotations)

/-- A type. Each level of nesting takes a token, so the tokens left bound it. -/
def type : Parser TypeTree := fun c => fieldType (c.rest.length + 1) c

def nameConst (name : String) : Const :=
  .scalar (if name = "true" ∨ name = "false" then .bool else .identifier) name

def constValue : Nat → Parser Const
  | 0 => illegal
  | fuel + 1 => do
    match ← kind? with
    | some .minus =>
      advance
      let t ← expectOf [.integerDecimal, .integerHex, .floatDecimal]
      return Const.ofNumber "-" t
    | some .plus =>
      advance
      let t ← expectOf [.integerDecimal, .integerHex, .floatDecimal]
      return Const.ofNumber "" t
    | some .integerDecimal | some .integerHex | some .floatDecimal =>
      let t ← expectOf [.integerDecimal, .integerHex, .floatDecimal]
      return Const.ofNumber "" t
    | some .text =>
      let t ← expect .text
      return .scalar .string t.value
    | some .identifier =>
      let name ← dottedName
      return nameConst name
    | some .squareOpen =>
      advance
      let items ← upTo .squareClose do
        let item ← constValue fuel
        separator
        return item
      return .list items
    | some .curlyOpen =>
      advance
      let pairs ← upTo .curlyClose do
        let key ← constValue fuel
        let _ ← expect .colon
        let value ← constValue fuel
        separator
        return (key, value)
      return .map pairs
    | _ => illegal

/-- A constant. Each level of nesting takes a token, so the tokens left bound it. -/
def const : Parser Const := fun c => constValue (c.rest.length + 1) c

def includeHeader : Parser Header := do
  let word ← expectWord ["include", "cpp_include"]
  let path ← expect .text
  separator
  return .included word.span.first path.value (word.value == "cpp_include")

/-- A namespace. Its annotations are read and dropped, whatever they hold. -/
def namespaceHeader : Parser Header := do
  let word ← expectWord ["namespace"]
  let scope ← expectOf [.identifier, .star]
  let name ← dottedName
  let _ ← attempt annotations
  separator
  return .namespaced word.span.first scope.value name

def constDefinition : Parser ConstTree := do
  let first ← place
  let word ← expectWord ["const"]
  let type ← type
  let name ← identifier
  let _ ← expect .equal
  let value ← const
  separator
  let decl ← declare first
  return { origin := ⟨word.span.first, decl⟩, type, name := name.value, value }

def typedefDefinition : Parser TypedefTree := do
  let first ← place
  let word ← expectWord ["typedef"]
  let type ← type
  let name ← identifier
  let annotations ← annotations
  separator
  let decl ← declare first
  return { origin := ⟨word.span.first, decl⟩, type, name := name.value, annotations }

def memberValue : Parser (Option Int) := do
  if ← accept .equal then some <$> integer else return none

def enumMember : Parser MemberTree := do
  let first ← place
  let name ← identifier
  let value ← memberValue
  let annotations ← annotations
  separator
  let decl ← declare first
  return { origin := ⟨name.span.first, decl⟩, name := name.value, value, annotations }

def enumDefinition : Parser EnumTree := do
  let first ← place
  let word ← expectWord ["enum"]
  let name ← identifier
  let _ ← expect .curlyOpen
  let members ← upTo .curlyClose enumMember
  let annotations ← annotations
  separator
  let decl ← declare first
  return { origin := ⟨word.span.first, decl⟩, name := name.value, members, annotations }

def fieldId : Parser (Option Int) := do
  if ← look (fun c => c.is .integerDecimal || c.is .integerHex || c.is .minus) then
    let n ← integer
    let _ ← expect .colon
    return some n
  else return none

def requirement : Parser Requirement := do
  match ← acceptWord ["required", "optional"] with
  | some "required" => return .required
  | some _ => return .optional
  | none => return .none

def fieldDefault : Parser Const := do
  if ← accept .equal then const else return .absent

def field : Parser FieldTree := do
  let first ← place
  let position ← here
  let id ← fieldId
  let requirement ← requirement
  let type ← type
  let name ← identifier
  let default ← fieldDefault
  let annotations ← annotations
  separator
  let decl ← declare first
  return { origin := ⟨position, decl⟩, id, requirement, type, name := name.value, default,
           annotations }

def variantOf : String → Variant
  | "union" => .union
  | "exception" => .exception
  | _ => .struct

def structDefinition : Parser StructTree := do
  let first ← place
  let word ← expectWord ["struct", "union", "exception"]
  let name ← identifier
  let _ ← acceptWord ["xsd_all"]
  let _ ← expect .curlyOpen
  let fields ← upTo .curlyClose field
  let annotations ← annotations
  separator
  let decl ← declare first
  return { origin := ⟨word.span.first, decl⟩, variant := variantOf word.value, name := name.value,
           fields, annotations }

def fieldList : Parser (List FieldTree) := do
  let _ ← expect .parenOpen
  upTo .parenClose field

def result : Parser (Option TypeTree) := do
  if (← acceptWord ["void"]).isSome then return none else some <$> type

def throwsClause : Parser (List FieldTree) := do
  if (← acceptWord ["throws"]).isSome then fieldList else return []

def function : Parser FunctionTree := do
  let first ← place
  let position ← here
  let oneway := (← acceptWord ["oneway"]).isSome
  let returns ← result
  let name ← identifier
  let params ← fieldList
  let throws ← throwsClause
  let annotations ← annotations
  separator
  let decl ← declare first
  return { origin := ⟨position, decl⟩, oneway, returns, name := name.value, params, throws,
           annotations }

/-- The service that a service extends, which may be absent. -/
def parentName : Parser String := do
  if (← acceptWord ["extends"]).isSome then dottedName else return ""

def serviceDefinition : Parser ServiceTree := do
  let first ← place
  let word ← expectWord ["service"]
  let name ← identifier
  let parent ← parentName
  let _ ← expect .curlyOpen
  let functions ← upTo .curlyClose function
  let annotations ← annotations
  separator
  let decl ← declare first
  return { origin := ⟨word.span.first, decl⟩, name := name.value, parent, functions, annotations }

def definition : Parser Definition := do
  if ← isWord ["const"] then return .const (← constDefinition)
  else if ← isWord ["typedef"] then return .typedef (← typedefDefinition)
  else if ← isWord ["enum"] then return .enum (← enumDefinition)
  else if ← isWord ["struct", "union", "exception"] then return .struct (← structDefinition)
  else if ← isWord ["service"] then return .service (← serviceDefinition)
  else illegal

def item : Parser (Header ⊕ Definition) := do
  if ← isWord ["include", "cpp_include"] then return .inl (← includeHeader)
  else if ← isWord ["namespace"] then return .inl (← namespaceHeader)
  else return .inr (← definition)

/-- A whole file: headers and declarations in any order. -/
def file : Parser Tree := do
  if ← look (·.failed) then giveUp
  let items ← whileDo (fun c => !c.atEnd) item
  return { headers := items.filterMap Sum.getLeft?, definitions := items.filterMap Sum.getRight? }

end Thrift
end ClientGen
