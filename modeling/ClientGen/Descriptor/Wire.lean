import ClientGen.Descriptor.Spelling

/-! # The binary form of descriptors

Descriptors as length-prefixed records of numbered fields. Numbers are written in
groups of seven bits, lowest first.
-/

namespace ClientGen
namespace Descriptor
namespace Wire

abbrev Bytes := List UInt8

/-- A number in groups of seven bits. Ten groups hold 64 bits. -/
def varintAux : Nat → Nat → Bytes
  | 0, _ => []
  | fuel + 1, n =>
    if n < 128 then [UInt8.ofNat n] else UInt8.ofNat (n % 128 + 128) :: varintAux fuel (n / 128)

def varint (n : Nat) : Bytes := varintAux 10 n

/-- A field that holds a number; negative ones wrap to 64 bits. -/
def number (field : Nat) (n : Int) : Bytes := varint (field * 8) ++ varint (n % (1 <<< 64)).toNat

def record (field : Nat) (bytes : Bytes) : Bytes :=
  varint (field * 8 + 2) ++ varint bytes.length ++ bytes

def text (field : Nat) (s : String) : Bytes := record field s.toUTF8.toList

def textUnlessEmpty (field : Nat) (s : String) : Bytes := if s = "" then [] else text field s

/-- A field that holds a truth value, left out when it is false. -/
def flag (field : Nat) (b : Bool) : Bytes := if b then number field 1 else []

def typeNumbers : List (String × Int) :=
  [("double", 1), ("float", 2), ("int64", 3), ("uint64", 4), ("int32", 5), ("fixed64", 6),
    ("fixed32", 7), ("bool", 8), ("string", 9), ("bytes", 12), ("uint32", 13), ("sfixed32", 15),
    ("sfixed64", 16), ("sint32", 17), ("sint64", 18)]

def typeNumber : FieldKind → Int
  | .scalar name => (List.lookup name typeNumbers).getD 0
  | .message _ => 11
  | .enum _ => 14

def labelNumber : Label → Int
  | .required => 2
  | .repeated => 3
  | _ => 1

def field (f : FieldDescriptor) : Bytes :=
  text 1 f.name ++ number 3 f.number ++ number 4 (labelNumber f.label) ++
    number 5 (typeNumber f.kind) ++ textUnlessEmpty 6 f.kind.typeName ++
    textUnlessEmpty 2 ((f.extendee.map ("." ++ ·)).getD "") ++
    (match f.oneof with
      | some n => number 9 n
      | none => []) ++
    text 10 (jsonName f.name)

def enum (e : EnumDescriptor) : Bytes :=
  text 1 e.name ++ e.members.flatMap fun (name, n) => record 2 (text 1 name ++ number 2 n)

mutual

def message : MessageDescriptor → Bytes
  | .mk head nested =>
    text 1 head.name ++ head.fields.flatMap (fun f => record 2 (field f)) ++ messages 3 nested ++
      head.enums.flatMap (fun e => record 4 (enum e)) ++
      head.extensions.flatMap (fun f => record 6 (field f)) ++
      (if head.isEntry then record 7 (flag 7 true) else []) ++
      head.oneofs.flatMap fun name => record 8 (text 1 name)

def messages (number : Nat) : List MessageDescriptor → Bytes
  | [] => []
  | m :: rest => record number (message m) ++ messages number rest

end

def method (m : MethodDescriptor) : Bytes :=
  text 1 m.name ++ text 2 m.input ++ text 3 m.output ++ flag 5 m.clientStream ++ flag 6 m.serverStream

def service (s : ServiceDescriptor) : Bytes :=
  text 1 s.name ++ s.methods.flatMap fun m => record 2 (method m)

def file (f : FileDescriptor) : Bytes :=
  text 1 f.name ++ textUnlessEmpty 2 f.package ++ f.dependencies.flatMap (text 3) ++
    messages 4 f.messages ++ f.enums.flatMap (fun e => record 5 (enum e)) ++
    f.services.flatMap (fun s => record 6 (service s)) ++
    f.extensions.flatMap (fun x => record 7 (field x)) ++ textUnlessEmpty 12 f.edition

def fileSet (files : List FileDescriptor) : Bytes := files.flatMap fun f => record 1 (file f)

end Wire
end Descriptor
end ClientGen
