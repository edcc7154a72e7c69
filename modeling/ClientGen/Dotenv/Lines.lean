import ClientGen.Collection.Table
import ClientGen.Dotenv.Reader

/-! # Settings as assignments, line by line

The strict form of an environment file: every line is blank, a comment, or an
assignment `NAME=value` or `NAME: value`. A value in quotes may run over several
lines. Outside single quotes, variables of the environment and of the lines
before may be mentioned.
-/

namespace ClientGen
namespace Dotenv

/-- The lines of a text; a carriage return, a line feed or both end one. -/
def physicalLines : List Char → List Char → List (List Char)
  | line, [] => if line.isEmpty then [] else [line.reverse]
  | line, '\r' :: '\n' :: rest => line.reverse :: physicalLines [] rest
  | line, c :: rest =>
    if c == '\r' || c == '\n' then line.reverse :: physicalLines [] rest
    else physicalLines (c :: line) rest

/-- Drops the blanks of running text at both ends. -/
def trimChars (cs : List Char) : List Char :=
  Text.dropTrailing Text.isSpace (cs.dropWhile Text.isSpace)

def beforeLast? (c : Char) (cs : List Char) : Option (List Char) :=
  match cs.reverse.dropWhile (· != c) with
  | [] => none
  | _ :: before => some before.reverse

/-- The quote that a value opens and does not close on its line. The closing one
is the last of the line; a backslash hides it, looked for as many bytes from the
opening quote as there are between the first character after it and the last one. -/
def openQuote? (value : List Char) : Option Char :=
  match value with
  | q :: rest =>
    if q != '"' && q != '\'' then none
    else
      match beforeLast? q (trimChars rest) with
      | none => some q
      | some before =>
        let width := (String.ofList before).utf8ByteSize
        let bytes := (String.ofList value).toUTF8
        if bytes[width]? == some 0x5C then some q else none
  | [] => none

/-- The value that decides whether a line is continued: what follows its first
equals sign, or failing that its first colon. -/
def continuedValue (line : List Char) : List Char :=
  let sign := if line.contains '=' then '=' else ':'
  let name := line.takeWhile (· != sign)
  if name.isEmpty then [] else trimChars (line.drop (name.length + 1))

def closes (quote : Char) (line : List Char) : Bool :=
  match beforeLast? quote line with
  | none => false
  | some before => before.getLast? != some '\\'

/-- A line with those after it up to the one that closes a quote, and what is
left. -/
def joinLines? (quote : Char) (line : List Char) :
    List (List Char) → Option (List Char × List (List Char))
  | [] => none
  | next :: rest =>
    let joined := line ++ '\n' :: next
    if closes quote next then some (joined, rest) else joinLines? quote joined rest

theorem joinLines?_length {quote : Char} {line joined : List Char} {lines rest : List (List Char)}
    (h : joinLines? quote line lines = some (joined, rest)) : rest.length < lines.length := by
  induction lines generalizing line with
  | nil => simp [joinLines?] at h
  | cons next more ih =>
    unfold joinLines? at h
    split at h
    · simp at h; simp [h.2]
    · have := ih h; simp; omega

/-- The assignments of a text, each on what is one line but for values that run
on. A quote that is not closed leaves none. -/
def logicalLines? : List (List Char) → Option (List (List Char))
  | [] => some []
  | line :: rest =>
    let line := trimChars line
    if line.isEmpty || line.head? == some '#' then logicalLines? rest
    else
      match openQuote? (continuedValue line) with
      | none => (logicalLines? rest).map (line :: ·)
      | some quote =>
        match _h : joinLines? quote line rest with
        | none => none
        | some (joined, rest) => (logicalLines? rest).map (joined :: ·)
termination_by lines => lines.length
decreasing_by
  all_goals simp
  have := joinLines?_length _h
  omega

def isGap (c : Char) : Bool := " \t\n\x0c\r".toList.contains c

def isKeyChar (c : Char) : Bool := c == '_' || c == '.' || (c.toNat < 128 && c.isAlphanum)

/-- Whether an assignment may end here: only blanks and a comment are left. -/
def endsAssignment (cs : List Char) : Bool :=
  match cs.dropWhile isGap with
  | [] => true
  | c :: rest => c == '#' && !rest.contains '\n'

/-- A value in quotes: it ends at the last quote after which an assignment may
end. -/
def quotedValue? (quote : Char) : List Char → Option (List Char)
  | [] => none
  | c :: rest =>
    match quotedValue? quote rest with
    | some value => some (c :: value)
    | none => if c == quote && endsAssignment rest then some [c] else none

def assignedValue? (cs : List Char) : Option (List Char) :=
  let inQuotes := match cs with
    | c :: rest => if c == '"' || c == '\'' then (quotedValue? c rest).map (c :: ·) else none
    | [] => none
  inQuotes <|>
    let plain := cs.takeWhile fun c => c != '#' && c != '\n'
    if endsAssignment (cs.drop plain.length) then some plain
    else if endsAssignment cs then some [] else none

/-- The value after a colon and some blanks; as few of them are passed over as
give a value. -/
def colonValue? : List Char → Option (List Char)
  | [] => none
  | c :: rest => if isGap c then assignedValue? rest <|> colonValue? rest else none

/-- The name and the value of an assignment that starts with its name. -/
def named? (cs : List Char) : Option (String × List Char) := do
  let name := cs.takeWhile isKeyChar
  if name.isEmpty then none
  let rest := cs.drop name.length
  let value ← match rest.dropWhile isGap with
    | '=' :: value => assignedValue? (value.dropWhile isGap)
    | _ =>
      match rest with
      | ':' :: value => colonValue? value
      | _ => none
  return (String.ofList name, value)

/-- The name and the value of an assignment. The word `export` may stand in
front. -/
def assignment? (line : List Char) : Option (String × List Char) :=
  let exported := do
    let rest ← Text.dropStart? "export".toList line
    let named := rest.dropWhile isGap
    if named.length < rest.length then named? named else none
  exported <|> named? line

/-- The meaning of a value: without its quotes, its escapes and its mentions,
where `find` tells the value of a variable. -/
def meaning (find : String → String) (value : List Char) : String :=
  let value := trimChars value
  let inner := value.tail.dropLast
  let expanded (s : String) : String := expand ['\x7b'] find s
  if value.length < 2 || value.head? != value.getLast? then expanded (String.ofList value)
  else if value.head? == some '\'' then String.ofList inner
  else if value.head? == some '"' then
    let lines := Text.replace (Text.replace (String.ofList inner) "\\n" "\n") "\\r" "\r"
    expanded (String.ofList (plainEscapes lines.toList))
  else expanded (String.ofList value)

/-- The variables of a text in the strict form. Those of the environment hide
earlier ones of the same name where one is mentioned. -/
def assignments? (environment? : String → Option String) (content : String) :
    Option (Table String) := do
  let cs := match content.toList with
    | c :: rest => if c.toNat == 0xFEFF then rest else c :: rest
    | [] => []
  (← logicalLines? (physicalLines [] cs)).foldlM (fun vars line => do
    let (name, value) ← assignment? line
    let find (name : String) : String := ((environment? name) <|> Table.find? vars name).getD ""
    return Table.insert vars name (meaning find value)) []

end Dotenv
end ClientGen
