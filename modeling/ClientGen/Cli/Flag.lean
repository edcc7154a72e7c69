import ClientGen.Collection.Table
import ClientGen.Text.Quoted

/-! # Flags

The flags of a command line. A flag is given by its name behind two dashes, or by
its letter behind one; letters may be written together. A switch needs no value.
-/

namespace ClientGen
namespace Cli

inductive FlagValue where
  | text (value : String)
  | switch (on : Bool)
  | list (values : List String)
deriving DecidableEq, Repr, Inhabited

/-- A flag: what it is called, what it is for, and its value unless given. -/
structure Flag where
  name : String
  letter : Option Char := none
  about : String
  initial : FlagValue
deriving DecidableEq, Repr, Inhabited

/-- How a command line breaks the rules of its flags. -/
inductive Misuse where
  | badSyntax (word : String)
  | unknownName (name : String)
  /-- A letter that no flag has, and the letters from it on. -/
  | unknownLetter (c : Char) (letters : String)
  | noValue (name : String)
  | noLetterValue (c : Char)
  | badValue (flag : Flag) (value cause : String)
deriving DecidableEq, Repr, Inhabited

def Flag.label (f : Flag) : String :=
  match f.letter with
  | some c => "-" ++ String.ofList [c] ++ ", --" ++ f.name
  | none => "--" ++ f.name

def Misuse.message : Misuse → String
  | badSyntax word => "bad flag syntax: " ++ word
  | unknownName name => "unknown flag: --" ++ name
  | unknownLetter c letters =>
    "unknown shorthand flag: " ++ Text.quotedChar c ++ " in -" ++ letters
  | noValue name => "flag needs an argument: --" ++ name
  | noLetterValue c =>
    "flag needs an argument: " ++ Text.quotedChar c ++ " in -" ++ String.ofList [c]
  | badValue flag value cause =>
    "invalid argument " ++ Text.quoted value ++ " for " ++ Text.quoted flag.label ++ " flag: " ++ cause

/-- Where the reading of a list stands: at the start of an item, inside a plain or a
quoted one, or behind the quote that closes one. -/
inductive ListPlace where
  | start | plain | quoted | closed
deriving DecidableEq, Repr

/-- Reads the items of a list. `column` counts bytes from one, and `item` holds the
characters of the item at hand, last one first. -/
def splitItems : ListPlace → Nat → List Char → List Char → Except String (List String)
  | .quoted, column, _, [] => .error (fault column "extraneous or missing \" in quoted-field")
  | _, _, item, [] => .ok [String.ofList item.reverse]
  | place, column, item, c :: rest =>
    let next := column + c.utf8Size
    match place, c with
    | .start, '"' => splitItems .quoted next [] rest
    | .quoted, '"' => splitItems .closed next item rest
    | .quoted, c => splitItems .quoted next (c :: item) rest
    | .closed, '"' => splitItems .quoted next ('"' :: item) rest
    | _, ',' => do return String.ofList item.reverse :: (← splitItems .start next [] rest)
    | .closed, _ => .error (fault (column - 1) "extraneous or missing \" in quoted-field")
    | _, '"' => .error (fault column "bare \" in non-quoted field")
    | _, c => splitItems .plain next (c :: item) rest
where
  fault (column : Nat) (what : String) : String :=
    "parse error on line 1, column " ++ Text.ofNat column ++ ": " ++ what

/-- The items of a list, between commas. No text at all is the empty list. -/
def readList (s : String) : Except String (List String) :=
  if s = "" then .ok [] else splitItems .start 1 [] s.toList

/-- The truth value that a word stands for. -/
def readSwitch (s : String) : Except String Bool :=
  if ["1", "t", "T", "TRUE", "true", "True"].contains s then .ok true
  else if ["0", "f", "F", "FALSE", "false", "False"].contains s then .ok false
  else .error ("strconv.ParseBool: parsing " ++ Text.quoted s ++ ": invalid syntax")

/-- What a command line gives: values by the name of the flag, and the other words. -/
structure Given where
  values : Table FlagValue := []
  operands : List String := []
deriving DecidableEq, Repr, Inhabited

namespace Flag

def isSwitch (f : Flag) : Bool :=
  match f.initial with
  | .switch _ => true
  | _ => false

/-- The value after a flag is given a text. Lists grow, from nothing at first. -/
def read (f : Flag) (before : Option FlagValue) (s : String) : Except String FlagValue :=
  match f.initial with
  | .text _ => .ok (.text s)
  | .switch _ => FlagValue.switch <$> readSwitch s
  | .list _ =>
    let known := match before with
      | some (.list xs) => xs
      | _ => []
    (fun more => FlagValue.list (known ++ more)) <$> readList s

def value (f : Flag) (g : Given) : FlagValue := (g.values.find? f.name).getD f.initial

def text (f : Flag) (g : Given) : String :=
  match f.value g with
  | .text s => s
  | _ => ""

def isOn (f : Flag) (g : Given) : Bool := f.value g == .switch true

def list (f : Flag) (g : Given) : List String :=
  match f.value g with
  | .list xs => xs
  | _ => []

/-- The left column of a flag's line in a help text. -/
def heading (f : Flag) : String :=
  let label := if f.letter.isSome then "  " ++ f.label else "      " ++ f.label
  match f.initial with
  | .text _ => label ++ " string"
  | .switch _ => label
  | .list _ => label ++ " strings"

/-- What a help text says about a flag. -/
def explanation (f : Flag) : String :=
  match f.initial with
  | .text "" => f.about
  | .text s => f.about ++ " (default " ++ Text.quoted s ++ ")"
  | .switch false => f.about
  | .switch true => f.about ++ " (default true)"
  | .list [] => f.about
  | .list xs => f.about ++ " (default [" ++ ",".intercalate xs ++ "])"

/-- The lines of a help text about some flags, in two columns. -/
def helpLines (flags : List Flag) : String :=
  let width := flags.foldl (fun n f => max n f.heading.length) 0
  "\n".intercalate (flags.map fun f =>
    f.heading ++ Text.repeated (width + 3 - f.heading.length) " " ++ f.explanation)

end Flag

namespace Given

def set (g : Given) (f : Flag) (s : String) : Except Misuse Given :=
  match f.read (g.values.find? f.name) s with
  | .ok v => .ok { g with values := g.values.insert f.name v }
  | .error cause => .error (.badValue f s cause)

/-- Reads letters that are written together. `next` is the word behind them; the answer
tells whether it was taken for a value. -/
def readLetters (flags : List Flag) (next : Option String) :
    List Char → Given → Except Misuse (Given × Bool)
  | [], g => .ok (g, false)
  | c :: rest, g =>
    match flags.find? fun f => f.letter == some c with
    | none =>
      let first := (String.ofList [c]).toUTF8.toList.headD 0
      .error (.unknownLetter (Char.ofNat first.toNat) (String.ofList (c :: rest)))
    | some f =>
      if rest.head? == some '=' && rest.length > 1 then (·, false) <$> g.set f (String.ofList (rest.drop 1))
      else if f.isSwitch then do readLetters flags next rest (← g.set f "true")
      else if !rest.isEmpty then (·, false) <$> g.set f (String.ofList rest)
      else match next with
        | some value => (·, true) <$> g.set f value
        | none => .error (.noLetterValue c)

def readName (flags : List Flag) (next : Option String) (word : String) (g : Given) :
    Except Misuse (Given × Bool) :=
  let body := Text.dropStart word "--"
  if Text.startsWith body "-" || Text.startsWith body "=" then .error (.badSyntax word)
  else
    let (name, value) := match Text.cut? body "=" with
      | some (name, value) => (name, some value)
      | none => (body, none)
    match flags.find? fun f => f.name == name with
    | none => .error (.unknownName name)
    | some f =>
      match value, next with
      | some value, _ => (·, false) <$> g.set f value
      | none, some value => if f.isSwitch then (·, false) <$> g.set f "true" else (·, true) <$> g.set f value
      | none, none => if f.isSwitch then (·, false) <$> g.set f "true" else .error (.noValue name)

/-- Reads words one after the other; `skip` passes over one that was taken for a value. -/
def readWords (flags : List Flag) : Bool → List String → Given → Except Misuse Given
  | _, [], g => .ok g
  | true, _ :: rest, g => readWords flags false rest g
  | false, word :: rest, g =>
    if word = "--" then .ok { g with operands := g.operands ++ rest }
    else if !Text.startsWith word "-" || word = "-" then
      readWords flags false rest { g with operands := g.operands ++ [word] }
    else do
      let (g, took) ←
        if Text.startsWith word "--" then readName flags rest.head? word g
        else readLetters flags rest.head? (word.toList.drop 1) g
      readWords flags took rest g

def ofWords (flags : List Flag) (words : List String) : Except Misuse Given :=
  readWords flags false words {}

end Given

end Cli
end ClientGen
