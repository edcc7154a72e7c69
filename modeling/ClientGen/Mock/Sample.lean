import ClientGen.Text.Casing
import ClientGen.Text.LetterCase
import ClientGen.Typescript.TypeName
import ClientGen.Value.Basic

/-! # Samples of scalar fields

The value that stands for a scalar field in a mock response. It depends only on
the names of the structure and the field, so that samples do not change from run
to run.
-/

namespace ClientGen

/-! ## Hashing texts

A hash of 32 bits over the bytes of a text: each byte is mixed in by exclusive
or, then the state is multiplied by a prime.
-/

namespace Text

/-- The state before the first byte. -/
def hashOffset : UInt32 := 2166136261

def hashPrime : UInt32 := 16777619

def hashStep (h : UInt32) (b : UInt8) : UInt32 := (h ^^^ b.toUInt32) * hashPrime

def hash32 (s : String) : Nat := (s.toUTF8.toList.foldl hashStep hashOffset).toNat

end Text

namespace Mock

open Typescript (Mapper)

/-- The time that sampled times lie after, in milliseconds. -/
def epochMillis : Nat := 1700000000000

/-- What the name of a field tells about its meaning. -/
inductive Meaning where
  | id | email | time | status
deriving DecidableEq, Repr, Inhabited

/-- The meaning that a field name has, without regard to case. -/
def Meaning.ofName? (name : String) : Option Meaning :=
  let key := Text.upper name
  if Text.endsWith key "ID" then some id
  else if Text.contains key "EMAIL" then some email
  else if Text.endsWith key "TIME" || Text.contains key "TIMESTAMP" then some time
  else if Text.endsWith key "STATUS" || Text.contains key "TYPE" then some status
  else none

/-- A number, written as a text where the type asks for one. -/
def numberAs (type : String) (n : Nat) : Value :=
  if type = "string" then .string (Text.ofNat n) else .int n

def Meaning.sample (type : String) (seed : Nat) : Meaning → Value
  | id => numberAs type (10000 + seed % 90000)
  | email => .string ("user" ++ Text.ofNat (seed % 1000) ++ "@example.com")
  | time => numberAs type (epochMillis + seed % 86400000)
  | status => numberAs type (seed % 4)

def typeSample (type scalar name : String) (seed : Nat) : Value :=
  match type with
  | "number" => .int (seed % 100 : Nat)
  | "string" =>
    if scalar = "i64" then .string (Text.ofNat (seed % 100)) else .string (Text.lowerCamel name)
  | "boolean" => .bool (seed % 2 == 0)
  | _ => .string ""

/-- The sample of a field that maps to a type: as its name tells for numbers and
texts, else its default, else a sample of the type. -/
def scalarSample (owner : String) (f : Field) (scalar type : String) : Value :=
  let seed := Text.hash32 (owner ++ "." ++ f.name)
  let told := if type = "number" ∨ type = "string" then Meaning.ofName? f.name else none
  match told, f.default with
  | some m, _ => m.sample type seed
  | none, .absent => typeSample type scalar f.name seed
  | none, c => Value.ofConst c

/-- The sample of a field of a structure; there is none for types that are not
scalars. -/
def sample (owner : String) (f : Field) (m : Mapper) : Value :=
  match f.type with
  | .base scalar =>
    match m.scalar scalar with
    | .ok type => scalarSample owner f scalar type
    | .error _ => .null
  | _ => .null

end Mock

end ClientGen
