import ClientGen.Text.Basic

/-! # Word casing

Names of generated code are derived from declared names by joining their words.
Only ASCII letters and digits make up words.
-/

namespace ClientGen
namespace Text

def isCapital (c : Char) : Bool := 'A' ≤ c && c ≤ 'Z'

def isSmall (c : Char) : Bool := 'a' ≤ c && c ≤ 'z'

def isWordBreak (c : Char) : Bool := c == '_' || c == ' ' || c == '-' || c == '.'

/-- One character of a camel-cased name. The first letter is small, a letter
after a break or a digit is capital, and of several capitals in a row only the
first stays one. -/
def camelChar (first capitalise afterCapital : Bool) (c : Char) : Char :=
  if capitalise then if isSmall c then c.toUpper else c
  else if first || afterCapital then if isCapital c then c.toLower else c
  else c

/-- Camel-cases the rest of a name. Characters that are no letters or digits are
dropped. -/
def camelAux (first capitalise afterCapital : Bool) : List Char → List Char
  | [] => []
  | c :: cs =>
    if isCapital c || isSmall c then
      camelChar first capitalise afterCapital c :: camelAux false false (isCapital c) cs
    else if c.isDigit then c :: camelAux false true false cs
    else camelAux false (isWordBreak c) false cs

/-- A name in camel case that starts with a small letter. -/
def lowerCamel (s : String) : String :=
  String.ofList (camelAux true false false (trim s).toList)

/-- What a character is for word boundaries. -/
inductive CaseClass where
  | capital | small | digit | other
deriving DecidableEq, Repr

def caseClass (c : Char) : CaseClass :=
  if isCapital c then .capital else if isSmall c then .small
  else if c.isDigit then .digit else .other

/-- Kebab-cases the rest of a name after a character of class `before`. -/
def kebabAux (before : CaseClass) : List Char → List Char
  | [] => []
  | c :: cs =>
    let here := caseClass c
    let next := (cs.head?.map caseClass).getD .other
    let piece : List Char :=
      match here, next with
      | .capital, .small => if before = .capital then ['-', c.toLower] else [c.toLower]
      | .capital, .digit => [c.toLower, '-']
      | .small, .capital | .small, .digit => [c, '-']
      | .digit, .capital | .digit, .small => [c, '-']
      | .capital, _ => [c.toLower]
      | _, _ => if isWordBreak c then ['-'] else [c]
    piece ++ kebabAux here cs

/-- A name in small letters with dashes between its words. -/
def kebab (s : String) : String := String.ofList (kebabAux .other (trim s).toList)

end Text
end ClientGen
