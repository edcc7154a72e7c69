import ClientGen.Proofs.Document.Literal
import ClientGen.Proto.Parser

/-! # Spelling Protobuf options

The ways to write an option, and the entries that each of them stands for. A name
is a path whose parts may be extensions in parentheses; a value is a scalar, a
list or an aggregate of further values, and stands for its scalars under their
paths. All written forms that stand for the same entries are to be read alike.

For every form, `spelled` gives the tokens, `entries` what it stands for, and
`spellable` says whether it can be written.
-/

namespace ClientGen
namespace Proto

open Source

/-! ## Scalars -/

/-- A floating point number without sign, which may be one of two words. -/
def spellUnsigned (text : String) : Face :=
  if text = "inf" ∨ text = "nan" then Face.word text else Face.numeral true text

/-- A floating point number, whose minus sign is a token of its own. -/
def spellDouble (text : String) : List Face :=
  match text.toList with
  | '-' :: rest => [Face.mark .minus, spellUnsigned (String.ofList rest)]
  | _ => [spellUnsigned text]

def spellScalar : Const → List Face
  | .scalar .int text => Face.number false text
  | .scalar .double text => spellDouble text
  | .scalar .string text => [Face.text text]
  | .scalar .bool text => Face.dotted text
  | .scalar .identifier text => Face.dotted text
  | _ => []

def valueWords : List String := ["true", "false", "inf", "nan"]

/-- Whether a constant can be written as a scalar: the two truth values are words
of their own, and no other name is taken for a value. -/
def scalarSpellable : Const → Bool
  | .scalar .bool text => text == "true" || text == "false"
  | .scalar .identifier text => !valueWords.contains text
  | .scalar (.other _) _ => false
  | .scalar _ _ => true
  | _ => false

/-! ## Values -/

/-- The name of a field in an aggregate; extensions are in brackets. -/
inductive KeyForm where
  | plain (name : String)
  | extension (name : String)
deriving DecidableEq, Repr, Inhabited

def KeyForm.spelled : KeyForm → List Face
  | plain name => [Face.word name]
  | extension name => Face.mark .squareOpen :: (Face.dotted name ++ [Face.mark .squareClose])

def KeyForm.name : KeyForm → String
  | plain name => name
  | extension name => name

mutual

inductive ValueForm where
  | scalar (value : Const)
  /-- Texts side by side, which are one text. -/
  | texts (first : String) (others : List String)
  /-- Values in brackets, with or without a comma after the last one. -/
  | list (items : List ValueForm) (comma : Bool)
  /-- Fields in braces. -/
  | aggregate (fields : List AggregateField)

/-- A field of an aggregate: a key, a colon or none, a value, and what closes it. -/
inductive AggregateField where
  | mk (key : KeyForm) (colon : Bool) (value : ValueForm) (close : Separator)

end

def ValueForm.isAggregate : ValueForm → Bool
  | aggregate _ => true
  | _ => false

mutual

def ValueForm.spelled : ValueForm → List Face
  | .scalar value => spellScalar value
  | .texts first others => Face.text first :: others.map Face.text
  | .list items comma =>
    Face.mark .squareOpen :: (spellValues items comma ++ [Face.mark .squareClose])
  | .aggregate fields =>
    Face.mark .curlyOpen :: (spellFields fields ++ [Face.mark .curlyClose])

def spellValues : List ValueForm → Bool → List Face
  | [], _ => []
  | [v], comma => v.spelled ++ if comma then [Face.mark .comma] else []
  | v :: w :: vs, comma => v.spelled ++ Face.mark .comma :: spellValues (w :: vs) comma

def spellFields : List AggregateField → List Face
  | [] => []
  | f :: fs => f.spelled ++ spellFields fs

def AggregateField.spelled : AggregateField → List Face
  | .mk key colon value close =>
    key.spelled ++ ((if colon then [Face.mark .colon] else []) ++ (value.spelled ++ close.faces))

end

mutual

/-- The scalars of a value under their paths. The items of a list share a path. -/
def ValueForm.entries : ValueForm → String → List OptionTree
  | .scalar value, path => [{ name := path, value }]
  | .texts first others, path =>
    [{ name := path, value := .scalar .string (String.join (first :: others)) }]
  | .list items _, path => entriesOfValues items path
  | .aggregate fields, path => entriesOfFields fields path

def entriesOfValues : List ValueForm → String → List OptionTree
  | [], _ => []
  | v :: vs, path => v.entries path ++ entriesOfValues vs path

def entriesOfFields : List AggregateField → String → List OptionTree
  | [], _ => []
  | f :: fs, path => f.entries path ++ entriesOfFields fs path

def AggregateField.entries : AggregateField → String → List OptionTree
  | .mk key _ value _, path => value.entries (path ++ "." ++ key.name)

end

mutual

/-- Whether a value can be written: its scalars can, and only aggregates stand
without a colon. -/
def ValueForm.spellable : ValueForm → Bool
  | .scalar value => scalarSpellable value
  | .texts _ _ => true
  | .list items _ => spellableValues items
  | .aggregate fields => spellableFields fields

def spellableValues : List ValueForm → Bool
  | [] => true
  | v :: vs => v.spellable && spellableValues vs

def spellableFields : List AggregateField → Bool
  | [] => true
  | f :: fs => f.spellable && spellableFields fs

def AggregateField.spellable : AggregateField → Bool
  | .mk _ colon value _ => (colon || value.isAggregate) && value.spellable

end

/-! ## Names and options -/

/-- A part of the name of an option. An extension stands in parentheses, perhaps
behind a dot. -/
inductive NamePart where
  | plain (name : String)
  | extension (rooted : Bool) (name : String)
deriving DecidableEq, Repr, Inhabited

def NamePart.spelled : NamePart → List Face
  | plain name => [Face.word name]
  | extension rooted name =>
    Face.mark .parenOpen :: ((if rooted then [Face.mark .dot] else []) ++
      (Face.dotted name ++ [Face.mark .parenClose]))

def NamePart.path : NamePart → String
  | plain name => name
  | extension _ name => name

/-- An option as it is written: the parts of its name, of which there is at least
one, and its value. -/
structure OptionForm where
  first : NamePart
  others : List NamePart := []
  value : ValueForm

namespace OptionForm

def path (o : OptionForm) : String := ".".intercalate ((o.first :: o.others).map NamePart.path)

def spelled (o : OptionForm) : List Face :=
  o.first.spelled ++ (o.others.flatMap fun p => Face.mark .dot :: p.spelled) ++
    (Face.mark .equal :: o.value.spelled)

def entries (o : OptionForm) : List OptionTree := o.value.entries o.path

def spellable (o : OptionForm) : Bool := o.value.spellable

end OptionForm

def spellStatement (o : OptionForm) : List Face :=
  Face.word "option" :: (o.spelled ++ [Face.mark .semicolon])

def spellBrackets : List OptionForm → List Face
  | [] => []
  | o :: os =>
    Face.mark .squareOpen :: (o.spelled ++ (os.flatMap fun p => Face.mark .comma :: p.spelled) ++
      [Face.mark .squareClose])

def OptionTree.erase (o : OptionTree) : OptionTree := { o with position := {} }

end Proto
end ClientGen
