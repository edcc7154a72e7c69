import ClientGen.Collection.Table
import ClientGen.Yaml.Lexer

/-! # YAML nodes

The tree of a document. A reference holds the node it names, so a tree is finite;
a reference to a node that it is part of has no meaning.
-/

namespace ClientGen
namespace Yaml

inductive Node where
  /-- A scalar: its tag in short form, if it has one, whether it stood in quotes or
  in a block, and its text. -/
  | scalar (tag : Option String) (isQuoted : Bool) (text : String)
  | list (items : List Node)
  | map (entries : List (Node × Node))
  | reference (name : String) (target : Node)
  /-- A reference to a node around it. -/
  | cycle (name : String)
deriving Inhabited

namespace Node

def absent : Node := scalar none false ""

end Node

/-- What a name stands for: a node, or one that is being read and has a number. -/
inductive Binding where
  | done (node : Node)
  | opened (number : Nat)
deriving Inhabited

structure Reading where
  tokens : List Token
  /-- What tags with a handle start with. -/
  handles : Table String := []
  names : Table Binding := []
  /-- How many names were given. -/
  count : Nat := 0
deriving Inhabited

abbrev Read := StateT Reading Option

namespace Read

def peek : Read Token := do return (← get).tokens.headD .textEnd

def advance : Read Unit := modify fun r => { r with tokens := r.tokens.drop 1 }

def fail {α : Type} : Read α := fun _ => none

def bind (name : Option String) : Read Nat := do
  let r ← get
  match name with
  | some name => set { r with names := r.names.insert name (.opened r.count), count := r.count + 1 }
  | none => pure ()
  return r.count

/-- Gives the name its node, unless another node has got the name since. -/
def complete (name : Option String) (number : Nat) (node : Node) : Read Node := do
  match name with
  | none => return node
  | some name =>
    let r ← get
    match r.names.find? name with
    | some (.opened n) => if n == number then set { r with names := r.names.insert name (.done node) }
    | _ => pure ()
    return node

def reference (name : String) : Read Node := do
  match (← get).names.find? name with
  | some (.done node) => return .reference name node
  | some (.opened _) => return .cycle name
  | none => fail

def standardTags : String := "tag:yaml.org,2002:"

/-- The short form of a tag; there is none for the tag that says nothing. -/
def shortTag (tag : String) : Option String :=
  if tag = "!" then none
  else if Text.startsWith tag standardTags then some ("!!" ++ Text.dropStart tag standardTags)
  else some tag

def fullTag (handle suffix : String) : Read String := do
  if handle = "" then return suffix
  match (← get).handles.find? handle with
  | some start => return start ++ suffix
  | none => fail

def anchor : Read (Option String) := do
  match ← peek with
  | .anchor name => advance; return some name
  | _ => return none

def tag : Read (Option String) := do
  match ← peek with
  | .tag handle suffix => advance; return some (← fullTag handle suffix)
  | _ => return none

/-- The name and the tag in front of a node, in either order. -/
def properties : Read (Option String × Option String) := do
  match ← anchor with
  | some name => return (some name, ← tag)
  | none =>
    match ← tag with
    | some t => return (← anchor, some t)
    | none => return (none, none)

def endsBlockPart : Token → Bool
  | .key | .value | .blockEnd => true
  | _ => false

def absent (isBare : Bool) (tag : Option String) : Read Node :=
  if isBare then fail else return .scalar tag false ""

mutual

/-- A node. Blocks are read only where `block` is set, and a list at the column of
the map around it only where `level` is. -/
def node : Nat → Bool → Bool → Read Node
  | 0, _, _ => fail
  | fuel + 1, block, level => do
    match ← peek with
    | .reference name => advance; reference name
    | _ =>
      let (name, tag) ← properties
      let number ← bind name
      let isBare := name.isNone && tag.isNone
      let node ← content fuel block level isBare (tag.bind shortTag)
      complete name number node

/-- What follows the name and the tag of a node. It may be absent, unless the node
has neither. -/
def content : Nat → Bool → Bool → Bool → Option String → Read Node
  | 0, _, _, _, _ => fail
  | fuel + 1, block, level, isBare, tag => do
    match ← peek with
    | .scalar text isQuoted => advance; return .scalar tag isQuoted text
    | .flowListStart => advance; return .list (← flowItems fuel true [])
    | .flowMapStart => advance; return .map (← flowEntries fuel true [])
    | .item => if level then return .list (← levelItems fuel []) else absent isBare tag
    | .blockListStart => if block then do advance; return .list (← blockItems fuel []) else absent isBare tag
    | .blockMapStart => if block then do advance; return .map (← blockEntries fuel []) else absent isBare tag
    | _ => absent isBare tag

def blockItems : Nat → List Node → Read (List Node)
  | 0, _ => fail
  | fuel + 1, done => do
    match ← peek with
    | .item =>
      advance
      let next ← peek
      let node ← if next == .item || next == .blockEnd then pure Node.absent else node fuel true false
      blockItems fuel (node :: done)
    | .blockEnd => advance; return done.reverse
    | _ => fail

/-- The rest of a list at the column of the map around it. -/
def levelItems : Nat → List Node → Read (List Node)
  | 0, _ => fail
  | fuel + 1, done => do
    match ← peek with
    | .item =>
      advance
      let next ← peek
      let node ← if next == .item || endsBlockPart next then pure Node.absent else node fuel true false
      levelItems fuel (node :: done)
    | _ => return done.reverse

def blockEntries : Nat → List (Node × Node) → Read (List (Node × Node))
  | 0, _ => fail
  | fuel + 1, done => do
    match ← peek with
    | .key =>
      advance
      let key ← blockPart fuel
      let value ← if (← peek) == .value then do advance; blockPart fuel else pure Node.absent
      blockEntries fuel ((key, value) :: done)
    | .blockEnd => advance; return done.reverse
    | _ => fail

def blockPart : Nat → Read Node
  | 0 => fail
  | fuel + 1 => do if endsBlockPart (← peek) then return Node.absent else node fuel true true

/-- The rest of a flow list. A single pair stands for a map of one entry. -/
def flowItems : Nat → Bool → List Node → Read (List Node)
  | 0, _, _ => fail
  | fuel + 1, first, done => do
    if (← peek) == .flowListEnd then
      advance
      return done.reverse
    if !first then
      if (← peek) == .comma then advance else fail
    match ← peek with
    | .flowListEnd => advance; return done.reverse
    | .key => advance; flowItems fuel false (.map [← flowPair fuel] :: done)
    | _ => flowItems fuel false ((← node fuel false false) :: done)

/-- The pair of a flow list behind the mark of its key. Where the key is absent,
the token in its place is passed. -/
def flowPair : Nat → Read (Node × Node)
  | 0 => fail
  | fuel + 1 => do
    let next ← peek
    let isAbsent := next == .value || next == .comma || next == .flowListEnd
    let key ← if isAbsent then do advance; pure Node.absent else node fuel false false
    if (← peek) == .value then
      advance
      let next ← peek
      if next == .comma || next == .flowListEnd then return (key, Node.absent)
      else return (key, ← node fuel false false)
    else return (key, Node.absent)

def flowEntries : Nat → Bool → List (Node × Node) → Read (List (Node × Node))
  | 0, _, _ => fail
  | fuel + 1, first, done => do
    if (← peek) == .flowMapEnd then
      advance
      return done.reverse
    if !first then
      if (← peek) == .comma then advance else fail
    match ← peek with
    | .flowMapEnd => advance; return done.reverse
    | .key =>
      advance
      let key ← flowPart fuel true
      let value ← if (← peek) == .value then do advance; flowPart fuel false else pure Node.absent
      flowEntries fuel false ((key, value) :: done)
    | _ => flowEntries fuel false ((← node fuel false false, Node.absent) :: done)

def flowPart : Nat → Bool → Read Node
  | 0, _ => fail
  | fuel + 1, isKey => do
    let next ← peek
    if next == .comma || next == .flowMapEnd || (isKey && next == .value) then return Node.absent
    else node fuel false false

end

/-- Reads the directives in front of a document. The version may be given once, and
so may each handle. -/
def directives : Nat → Bool → Read Unit
  | 0, _ => fail
  | fuel + 1, hasVersion => do
    match ← peek with
    | .version major minor =>
      if hasVersion || major != 1 || minor != 1 then fail
      advance
      directives fuel true
    | .handle name start =>
      let r ← get
      if r.handles.has name then fail
      set { r with handles := r.handles.insert name start }
      advance
      directives fuel hasVersion
    | _ => return

def standardHandles : Table String := [("!", "!"), ("!!", standardTags)]

def addStandardHandles : Read Unit :=
  modify fun r => { r with handles := r.handles ++ standardHandles.filter fun h => !r.handles.has h.1 }

def endsDocument : Token → Bool
  | .version .. | .handle .. | .documentStart | .documentEnd | .textEnd => true
  | _ => false

/-- The first document, if there is one. What follows it does not matter. -/
def document (fuel : Nat) : Read (Option Node) := do
  match ← peek with
  | .textEnd => return none
  | .documentStart | .version .. | .handle .. =>
    directives fuel false
    addStandardHandles
    if (← peek) != .documentStart then fail
    advance
    let root ← if endsDocument (← peek) then pure Node.absent else node fuel true false
    if (← peek) == .fault then fail
    return some root
  | _ =>
    addStandardHandles
    let root ← node fuel true false
    if (← peek) == .fault then fail
    return some root

end Read

/-- The first document of a text; nothing when there is none. -/
def document? (content : String) : Option (Option Node) :=
  let tokens := tokens content
  ((Read.document (4 * tokens.length + 4)).run { tokens }).map (·.1)

end Yaml
end ClientGen
