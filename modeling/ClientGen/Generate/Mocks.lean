import ClientGen.Pipeline.Stage
import ClientGen.Text.Casing

/-! # Mock samples

A sample of what each method of a service returns. Structures are sampled field
by field down to a depth, lists hold one sample of their element, and the value of
every field goes through the stage that plugins may answer.
-/

namespace ClientGen
namespace Generate

open Pipeline
open Source (Failure)

abbrev Work := ExceptT Failure (StateM Run)

structure Sampler where
  bus : Bus Stage
  symbols : Symbols
  maxDepth : Nat

/-- What work has come to: a value or a failure, and the run after it. -/
abbrev After (α : Type) := Except Failure α × Run

namespace Sampler

/-- Asks the stage for the value of a field; `value` is the sample so far. -/
def answer (s : Sampler) (owner : String) (f : Field) (depth : Nat) (value : Value) : Work Value :=
  if s.bus.has Stage.mockFieldHook then do
    let c ← (fun r => Stage.runMockField s.bus { owner, field := some f, depth, value } r)
    return c.value
  else return value

def listOf : Value → Value
  | .null => .list []
  | v => .list [v]

def hold (done : Table Value) (name : String) : Value → Table Value
  | .null => done
  | v => done.insert name v

def prepend (name : String) (samples : List (String × Value)) : Value → List (String × Value)
  | .null => samples
  | v => (name, v) :: samples

/-! Sampling need not come to an end: a name for lists of itself has no sample. There is a
result where it does, and where it does not the run breaks off. -/

mutual

/-- The sample of a structure; there is none beyond the greatest depth. -/
def sampleStruct (s : Sampler) (d : Document) (st : Struct) (depth : Nat) (r : Run) :
    Option (After Value) := do
  if depth ≥ s.maxDepth then return (.ok .null, r)
  let (fields, r) ← s |>.sampleFields d st.name depth st.fields [] r
  return (fields.map .record, r)
partial_fixpoint

/-- The samples of fields beside those that are done; fields without a value are left out. -/
def sampleFields (s : Sampler) (d : Document) (owner : String) (depth : Nat)
    (fields : List Field) (done : Table Value) (r : Run) : Option (After (Table Value)) :=
  match fields with
  | [] => return (.ok done, r)
  | f :: rest => do
    match ← s |>.sampleField d owner f depth r with
    | (.ok v, r) => s |>.sampleFields d owner depth rest (hold done f.name v) r
    | (.error e, r) => return (.error e, r)
partial_fixpoint

/-- The sample of a field: its default where that is not left to the stage, else
a sample of its type. -/
def sampleField (s : Sampler) (d : Document) (owner : String) (f : Field) (depth : Nat) (r : Run) :
    Option (After Value) :=
  match f.type, f.default with
  | .void, _ => return (.ok .null, r)
  | .base _, _ => return s.answer owner f depth .null r
  | t, .absent => do
    match ← s |>.sampleType d owner f.name t depth r with
    | (.ok v, r) => return s.answer owner f depth v r
    | (.error e, r) => return (.error e, r)
  | _, c => return s.answer owner f depth (Value.ofConst c) r
partial_fixpoint

def sampleType (s : Sampler) (d : Document) (owner name : String) (t : FieldType) (depth : Nat)
    (r : Run) : Option (After Value) :=
  match t with
  | .list e => do
    let (v, r) ← s |>.sampleField d owner { name, type := e } depth r
    return (v.map listOf, r)
  | .set e => do
    let (v, r) ← s |>.sampleField d owner { name, type := e } depth r
    return (v.map listOf, r)
  | .map _ _ => return (.ok (.map []), r)
  | .identifier id =>
    match s.symbols.resolve? d id with
    | some (.struct st, decl) => s |>.sampleStruct decl st (depth + 1) r
    | some (.enum e, _) =>
      return (.ok ((e.members.head?.map fun m => Value.int m.value).getD .null), r)
    | some (.typedef t, decl) =>
      if t.type = .void ∨ t.type = .identifier id then return (.ok .null, r)
      else s |>.sampleField decl owner { name, type := t.type } depth r
    | _ => return (.ok .null, r)
  | _ => return (.ok .null, r)
partial_fixpoint

end

def sampleResult (s : Sampler) (d : Document) (service method : String) (f : Function) (r : Run) :
    Option (After Value) :=
  let other := s.sampleField d service { name := method, type := f.returns } 0 r
  match f.returns with
  | .identifier name =>
    match s.symbols.resolve? d name with
    | some (.struct st, decl) => s.sampleStruct decl st 0 r
    | _ => other
  | _ => other

/-- The function that a method stands for: the last one of its name. -/
def function? (s : Service) (method : String) : Option Function :=
  s.functions.reverse.find? fun f => Text.lowerCamel f.name == method

/-- The sample of a method; there is none for a method that returns nothing. -/
def sampleMethod (s : Sampler) (d : Document) (service : Service) (method : String) (r : Run) :
    Option (After Value) :=
  match function? service method with
  | some f =>
    if f.returns = .void then some (.ok .null, r) else s.sampleResult d service.name method f r
  | none => some (.ok .null, r)

/-- Samples of methods by name, each as `one` gives it; methods without a sample are left out. -/
def collectSamples (one : String → Run → Option (After Value)) :
    List Typescript.Method → Run → Option (After (List (String × Value)))
  | [], r => some (.ok [], r)
  | m :: rest, r => do
    match ← one m.name r with
    | (.ok v, r) =>
      let (samples, r) ← collectSamples one rest r
      return (samples.map fun samples => prepend m.name samples v, r)
    | (.error e, r) => return (.error e, r)

def methodSamples (s : Sampler) (d : Document) (service : Service)
    (methods : List Typescript.Method) (r : Run) : Option (After (List (String × Value))) :=
  collectSamples (s.sampleMethod d service) methods r

/-- The samples of some methods of a service as work of a run, which breaks off where
sampling has no end. -/
def sampleMethods (s : Sampler) (d : Document) (service : Service)
    (methods : List Typescript.Method) : Work (List (String × Value)) := fun r =>
  (s.methodSamples d service methods r).getD (.error .overflow, r)

end Sampler

end Generate
end ClientGen
