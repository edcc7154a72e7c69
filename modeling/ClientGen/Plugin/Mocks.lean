import ClientGen.Mock.Sample
import ClientGen.Pipeline.Stage

/-! # Plugins around mocks

One gives the scalar fields of mock samples their values, the other keeps the
switchboard of mocked methods in step with the generated ones.
-/

namespace ClientGen
namespace Plugin

open Pipeline
open Mock (Switchboard Prior)

/-! ## Samples -/

def sampled (types : Typescript.Mapper) (c : FieldContext) : FieldContext :=
  match c.value, c.field with
  | .null, some f => { c with value := Mock.sample c.owner f types }
  | _, _ => c

def samples : Plugin Stage where
  name := "mock"
  registrations :=
    [(Stage.mockField fun c r =>
      (.ok (sampled ((r.registry.map (·.types)).getD {}) c), r)).registration "ON" Stage.late]

/-! ## The switchboard

The methods of all services are gathered, and the merged file is put among the
files to be written.
-/

def startBoard (slot : Nat) (prior : Prior) (c : EntryContext) (r : Run) : Run :=
  let r := r.setBoard slot { ready := c.output.isSome, prior := prior.switchboard? }
  if prior = .unreadable ∧ r.registry.isSome then
    (r.hintOnce "mockconfig" "mock config unreadable, starting from an empty list" []).2
  else r

/-- Adds the methods of a service and writes the switchboard of all so far. -/
def extendBoard (slot : Nat) (path : String) (c : FileContext) (r : Run) : Run :=
  let b := r.board slot
  let methods := b.methods ++ c.methods.map fun m => c.service.name ++ "." ++ m.name
  (r.setBoard slot { b with methods }).put path (Switchboard.merge b.prior methods).render

/-- Keeps the switchboard at a path among the files to be written. -/
def switches (slot : Nat) (prior : Prior) (path : String) : Plugin Stage where
  name := "mockconfig"
  registrations :=
    [(Stage.onEntries fun c r => (c, startBoard slot prior c r)).registration "AFTER" 0,
      (Stage.generateFile fun c r =>
        if (r.board slot).ready then (.ok c, extendBoard slot path c r)
        else (.error (.plain "mock config stage ran before PARSE_ENTRY"), r)).registration
        "AFTER" Stage.late]

end Plugin
end ClientGen
