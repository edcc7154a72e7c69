import ClientGen.Yaml.Node
import ClientGen.Yaml.Scalar

/-! # Reading YAML

The settings of the first document of a YAML text. References are read once more
wherever they stand, up to a share of all that is read. A merge key adds the
entries of other maps that the map itself does not have.
-/

namespace ClientGen
namespace Yaml

/-- How many nodes were read, and how many of them through a reference. -/
structure Tally where
  all : Nat := 0
  referred : Nat := 0
deriving DecidableEq, Repr, Inhabited

namespace Tally

/-- The share of nodes that may be read through references, in parts of `10 ^ 8`:
99 of 100 in small documents, and from there on in even steps down to ten of 100 in
large ones. -/
def share (all : Nat) : Nat :=
  let low := 400000
  let high := 4000000
  if all ≤ low then 99000000
  else if high ≤ all then 10000000
  else 99000000 - 89000000 * (all - low) / (high - low)

/-- Whether references take too much of the document. -/
def isExcessive (t : Tally) : Bool :=
  t.referred > 100 && t.all > 1000 && t.referred * 100000000 > share t.all * t.all

end Tally

/-- A step of making settings of nodes. -/
abbrev Make := StateT Tally Option

def count (referred : Bool) : Make Unit := fun t =>
  let t : Tally := ⟨t.all + 1, t.referred + (if referred then 1 else 0)⟩
  if t.isExcessive then none else some ((), t)

/-- The key of an entry: its kind, and what it is called. Keys of different kinds
are different even where they are called the same. -/
structure Key where
  kind : Nat
  text : String
deriving DecidableEq, Repr, Inhabited

namespace Key

def ofText (s : String) : Key := ⟨0, s⟩

def ofMeaning : Meaning → Key
  | .text s => ofText s
  | .null => ⟨1, ""⟩
  | .bool b => ⟨2, if b then "true" else "false"⟩
  | .int n => ⟨if n < 1 <<< 63 then 3 else 4, Text.ofInt n⟩
  | .float x => ⟨5, (Setting.asText? (.float x)).getD ""⟩
  | .time t => ⟨6, t.text⟩

end Key

abbrev Entries := List (Key × Setting)

/-- Gives a key a value: in its place when it has one, else at the end. -/
def Entries.insert : Entries → Key → Setting → Entries
  | [], key, value => [(key, value)]
  | (k, v) :: rest, key, value =>
    if k == key then (k, value) :: rest else (k, v) :: Entries.insert rest key value

def Entries.setting (entries : Entries) : Setting := .map (entries.map fun (k, v) => (k.text, v))

namespace Node

def scalar? : Node → Option (Option String × Bool × String)
  | .scalar tag isQuoted text => some (tag, isQuoted, text)
  | .reference _ target => target.scalar?
  | _ => none

/-- What tells two keys of a map apart. -/
def label : Node → Nat × String
  | .scalar _ _ text => (0, text)
  | .list _ => (1, "")
  | .map _ => (2, "")
  | .reference name _ => (3, name)
  | .cycle name => (3, name)

def mergeKey : String := "<<"

/-- Whether a key merges other maps in. -/
def isMerge : Node → Bool
  | .scalar tag isQuoted text =>
    text = mergeKey && (tag = some "!!merge" || (tag = none && !isQuoted))
  | _ => false

def isText (n : Node) : Bool :=
  n.isMerge || match n.scalar? with
    | some (some tag, _, _) => tag = "!!str"
    | some (none, isQuoted, text) =>
      isQuoted || match resolve text with
        | .text _ => true
        | _ => false
    | none => false

/-- The key of an entry. Where all keys are texts, a key of another kind is what is
written, and null is none. -/
def key? (texts : Bool) (n : Node) : Option (Option Key) := do
  let (tag, isQuoted, text) ← n.scalar?
  match ← Yaml.scalar? tag isQuoted text with
  | .text s => return some (Key.ofText s)
  | .null => return if texts then none else some (Key.ofMeaning .null)
  | m => return some (if texts then Key.ofText text else Key.ofMeaning m)

def countKey (referred : Bool) : Node → Make Unit
  | .reference _ target => do count referred; countKey true target
  | _ => count referred

end Node

def repeats : List (Nat × String) → Bool
  | [] => false
  | l :: rest => rest.contains l || repeats rest

def countMap (referred : Bool) (entries : List (Node × Node)) : Make Unit := do
  count referred
  if repeats (entries.map fun e => e.1.label) then failure

structure Making where
  /-- Whether all keys are texts. -/
  texts : Bool
  entries : Entries := []
  /-- The keys that a merged map does not give any more. -/
  taken : Option (List Key) := none

/-- The keys of a map as they count when maps are merged into it. -/
def ownKeys (referred : Bool) : List (Node × Node) → Make (List Key)
  | [] => return []
  | (k, _) :: rest => do
    k.countKey referred
    match ← k.key? false with
    | some key => return key :: (← ownKeys referred rest)
    | none => ownKeys referred rest

mutual

def make (referred : Bool) : Node → Make Setting
  | .scalar tag isQuoted text => do
    count referred
    return (← scalar? tag isQuoted text).setting
  | .list items => do
    count referred
    return .list (← makeItems referred items)
  | .map entries => do
    countMap referred entries
    let m : Making := { texts := entries.all fun e => e.1.isText }
    let m ← makeEntries referred m entries
    return (← mergeEntries referred m entries entries).entries.setting
  | .reference _ target => do
    count referred
    make true target
  | .cycle _ => failure

def makeItems (referred : Bool) : List Node → Make (List Setting)
  | [] => return []
  | n :: rest => do
    let s ← make referred n
    return s :: (← makeItems referred rest)

/-- Adds the entries of a map, aside from what is merged in. -/
def makeEntries (referred : Bool) (m : Making) : List (Node × Node) → Make Making
  | [] => return m
  | (k, v) :: rest => do
    if k.isMerge then makeEntries referred m rest
    else
      k.countKey referred
      match ← k.key? m.texts with
      | none => makeEntries referred m rest
      | some key =>
        if (m.taken.getD []).contains key then makeEntries referred m rest
        else
          let value ← make referred v
          makeEntries referred
            { m with entries := m.entries.insert key value, taken := m.taken.map (key :: ·) } rest

/-- Merges what a map with all the entries `own` asks for. -/
def mergeEntries (referred : Bool) (m : Making) (own : List (Node × Node)) :
    List (Node × Node) → Make Making
  | [] => return m
  | (k, v) :: rest => do
    if k.isMerge then
      let taken ← match m.taken with
        | some taken => pure taken
        | none => ownKeys referred own
      let merged ← mergeValue referred { m with taken := some taken } v
      return { merged with taken := m.taken.bind fun _ => merged.taken }
    else mergeEntries referred m own rest

def mergeValue (referred : Bool) (m : Making) : Node → Make Making
  | .map entries => do
    countMap referred entries
    let m ← makeEntries referred m entries
    mergeEntries referred m entries entries
  | .reference _ (.map entries) => do
    count referred
    countMap true entries
    let m ← makeEntries true m entries
    mergeEntries true m entries entries
  | .list items => mergeItems referred m items
  | _ => failure

def mergeItems (referred : Bool) (m : Making) : List Node → Make Making
  | [] => return m
  | .map entries :: rest => do
    countMap referred entries
    let m ← makeEntries referred m entries
    let m ← mergeEntries referred m entries entries
    mergeItems referred m rest
  | .reference _ (.map entries) :: rest => do
    count referred
    countMap true entries
    let m ← makeEntries true m entries
    let m ← mergeEntries true m entries entries
    mergeItems referred m rest
  | _ => failure

end

/-- The settings of a document, which has to be a map or null. The keys of the map
are taken as texts. -/
def makeDocument : Node → Make (List (String × Setting))
  | .map entries => do
    countMap false entries
    let m ← makeEntries false { texts := true } entries
    return (← mergeEntries false m entries entries).entries.map fun (k, v) => (k.text, v)
  | .scalar tag isQuoted text => do
    match ← scalar? tag isQuoted text with
    | .null => return []
    | _ => failure
  | _ => failure

/-- The settings of a YAML text, whose first document has to be a map or null. -/
def read? (content : String) : Option (List (String × Setting)) := do
  match ← document? content with
  | none => return []
  | some root => return (← (makeDocument root).run {}).1

end Yaml
end ClientGen
