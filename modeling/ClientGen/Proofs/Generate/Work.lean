import ClientGen.Generate.Basic
import ClientGen.Proofs.Collection.Table
import ClientGen.Proofs.Source.Failure

/-! # Work on a run

What is known when a piece of work has succeeded. Work adds files to those that are to
be written, in order, and leaves what names mean as it is (`Run.Grown`). Without
plugins the stages are the built-in ones: included paths are spelled out, methods are
filled in, and scalar fields get samples.
-/

namespace ClientGen
namespace Generate

open Pipeline
open Source (Failure ok_of_within)

/-! ## Steps -/

section Steps

variable {α β : Type} {r r' : Run}

theorem bind_work_ok {x : Work α} {f : α → Work β} {a : α} {r₁ : Run} (h : x r = (.ok a, r₁)) :
    (x >>= f) r = f a r₁ := by
  simp only [bind, ExceptT.bind, ExceptT.mk, StateT.bind, h]
  rfl

theorem bind_work_error {x : Work α} {f : α → Work β} {e : Failure} {r₁ : Run}
    (h : x r = (.error e, r₁)) : (x >>= f) r = (.error e, r₁) := by
  simp only [bind, ExceptT.bind, ExceptT.mk, StateT.bind, h]
  rfl

theorem ok_of_bind_work {x : Work α} {f : α → Work β} {b : β}
    (h : (x >>= f) r = (.ok b, r')) :
    ∃ a r₁, x r = (.ok a, r₁) ∧ f a r₁ = (.ok b, r') := by
  cases hx : x r with
  | mk result r₁ =>
      cases result with
      | error e =>
          rw [bind_work_error hx] at h
          cases h
      | ok a => exact ⟨a, r₁, rfl, (bind_work_ok hx).symm.trans h⟩

theorem ok_of_pure_work {a b : α} (h : (pure a : Work α) r = (.ok b, r')) : a = b ∧ r = r' := by
  obtain ⟨hvalue, hrun⟩ := Prod.mk.inj (show ((.ok a : Except Failure α), r) = (.ok b, r') from h)
  exact ⟨Except.ok.inj hvalue, hrun⟩

theorem ok_of_lift {x : Except Failure α} {a : α} (h : lift x r = (.ok a, r')) :
    x = .ok a ∧ r = r' :=
  Prod.mk.inj h

theorem ok_of_within_work {label : String} {x : Work α} {a : α}
    (h : within label x r = (.ok a, r')) : x r = (.ok a, r') := by
  obtain ⟨hvalue, hrun⟩ := Prod.mk.inj h
  exact Prod.ext (ok_of_within hvalue) hrun

end Steps

/-! ## Files to be written -/

/-- From `r` to `r'` some files were added, in order, to those that are to be written,
and names mean what they meant. -/
structure Grown (r : Run) (files : List (String × String)) (r' : Run) : Prop where
  output : r'.output = files.foldl (fun t file => t.insert file.1 file.2) r.output
  registry : r'.registry = r.registry

namespace Grown

variable {r r₁ r₂ : Run} {files more : List (String × String)}

theorem refl (r : Run) : Grown r [] r := ⟨rfl, rfl⟩

theorem trans (h : Grown r files r₁) (h' : Grown r₁ more r₂) : Grown r (files ++ more) r₂ := by
  refine ⟨?_, h'.registry.trans h.registry⟩
  rw [h'.output, h.output, List.foldl_append]

theorem put (path content : String) : Grown r [(path, content)] (r.put path content) := ⟨rfl, rfl⟩

end Grown

/-! ## Built-in stages -/

def builtinBus (enumKeysAsNumbers mock : Bool) : Bus Stage :=
  { registrations :=
      Plugin.includes.registrations.map (fun r => { r with plugin := "include" }) ++
      (Plugin.methods enumKeysAsNumbers).registrations.map (fun r => { r with plugin := "meta" }) ++
      if mock then Plugin.samples.registrations.map (fun r => { r with plugin := "mock" }) else [] }

section Stages

variable {o : Options} {types : Typescript.Mapper} {bus : Bus Stage} {keys mock : Bool} {r : Run}

theorem bus_of_prepare (hplugins : o.plugins = []) (h : prepare o = .ok (types, bus)) :
    bus = builtinBus o.enumKeysAsNumbers o.mock := by
  obtain ⟨mapper, -, h⟩ := Source.ok_of_bind h
  obtain ⟨b, hb, h⟩ := Source.ok_of_bind h
  obtain ⟨-, rfl⟩ := Prod.mk.inj (Except.ok.inj h)
  unfold stages at hb
  rw [hplugins] at hb
  cases hmock : o.mock with
  | true =>
      rw [hmock] at hb
      exact (Except.ok.inj hb).symm
  | false =>
      rw [hmock] at hb
      exact (Except.ok.inj hb).symm

/-- A hook with one handler, of the main phase, runs this handler. -/
theorem schedule_single {η : Type} {b : Bus η} {hook : String} {reg : Registration η}
    (hbefore : b.registrations.filter (·.key == key "BEFORE" hook) = [])
    (hon : b.registrations.filter (·.key == key "ON" hook) = [reg])
    (hafter : b.registrations.filter (·.key == key "AFTER" hook) = []) :
    b.schedule hook = [reg] := by
  simp [Bus.schedule, phases, Bus.ordered, hbefore, hon, hafter]

theorem runParseEntry_builtin (c : EntryContext) :
    Stage.runParseEntry (builtinBus keys mock) c r =
      (.ok { c with documents := c.documents.map Plugin.includesOf },
        { r with warnings := r.warnings ++ c.documents.flatMap Plugin.includeWarnings }) := by
  have hhas : (builtinBus keys mock).has Stage.parseEntryHook = true := by cases mock <;> rfl
  have hschedule : (builtinBus keys mock).schedule Stage.parseEntryHook =
      Plugin.includes.registrations.map fun r => { r with plugin := "include" } := by
    apply schedule_single
    · cases mock <;> rfl
    · cases mock <;> rfl
    · cases mock <;> rfl
  unfold Stage.runParseEntry Bus.trigger
  rw [if_pos hhas, hschedule]
  rfl

theorem schedule_generateFile : (builtinBus keys mock).schedule Stage.generateFileHook =
    (Plugin.methods keys).registrations.map fun r => { r with plugin := "meta" } := by
  apply schedule_single
  · cases mock <;> rfl
  · cases mock <;> rfl
  · cases mock <;> rfl

theorem runGenerateFile_builtin {c : FileContext} {g : Registry}
    {methods : List Typescript.Method} (hregistry : r.registry = some g)
    (h : Plugin.addMethods g keys c.document c.service c.service.functions c.methods =
      .ok methods) :
    Stage.runGenerateFile (builtinBus keys mock) c r = (.ok { c with methods }, r) := by
  have hhas : (builtinBus keys mock).has Stage.generateFileHook = true := by cases mock <;> rfl
  unfold Stage.runGenerateFile Bus.trigger
  rw [if_pos hhas, schedule_generateFile]
  simp only [Plugin.methods, List.map_cons, List.map_nil, Stage.registration, Bus.runAll,
    Stage.generateFile?, hregistry, h]
  rfl

theorem ok_of_runGenerateFile {c c' : FileContext} {g : Registry} {r' : Run}
    (hregistry : r.registry = some g)
    (h : Stage.runGenerateFile (builtinBus keys mock) c r = (.ok c', r')) :
    ∃ methods, Plugin.addMethods g keys c.document c.service c.service.functions c.methods =
      .ok methods ∧ c' = { c with methods } ∧ r' = r := by
  cases hadded : Plugin.addMethods g keys c.document c.service c.service.functions c.methods with
  | error f =>
      have hhas : (builtinBus keys mock).has Stage.generateFileHook = true := by cases mock <;> rfl
      unfold Stage.runGenerateFile Bus.trigger at h
      rw [if_pos hhas, schedule_generateFile] at h
      simp only [Plugin.methods, List.map_cons, List.map_nil, Stage.registration, Bus.runAll,
        Stage.generateFile?, hregistry, hadded] at h
      cases h
  | ok methods =>
      rw [runGenerateFile_builtin hregistry hadded] at h
      obtain ⟨hvalue, hrun⟩ := Prod.mk.inj h
      exact ⟨methods, rfl, (Except.ok.inj hvalue).symm, hrun.symm⟩

theorem runMockField_builtin (c : FieldContext) :
    Stage.runMockField (builtinBus keys true) c r =
      (.ok (Plugin.sampled ((r.registry.map (·.types)).getD {}) c), r) := by
  have hhas : (builtinBus keys true).has Stage.mockFieldHook = true := rfl
  have hschedule : (builtinBus keys true).schedule Stage.mockFieldHook =
      Plugin.samples.registrations.map fun r => { r with plugin := "mock" } := by
    apply schedule_single
    · rfl
    · rfl
    · rfl
  unfold Stage.runMockField Bus.trigger
  rw [if_pos hhas, hschedule]
  rfl

theorem has_writeFile_builtin : (builtinBus keys mock).has Stage.writeFileHook = false := by
  cases mock <;> rfl

end Stages

end Generate
end ClientGen
