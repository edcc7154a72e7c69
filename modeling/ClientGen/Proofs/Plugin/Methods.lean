import ClientGen.Proofs.Generate.Work
import ClientGen.Proofs.Load.Contents

/-! # Methods of services

Known types have names, so every routed function becomes a method. Methods are kept by
name, and a name is that of the function in lower camel case: where two functions come to
the same name, the method of the later one takes the place of the earlier one
(`generateFile_methods`).
-/

namespace ClientGen

open Source (Failure Reporter exists_ok_bind exists_ok_pure exists_ok_within ok_of_bind)

/-! ## Names of types -/

namespace Typescript

variable (m : Mapper) (resolve : Resolver) (enumKeysAsNumbers : Bool)

theorem ok_scalar {name : String} (h : name ∈ FieldType.scalars) : ∃ t, m.scalar name = .ok t := by
  have hbase : Mapper.baseName? name = some name := if_pos (List.contains_iff_mem.mpr h)
  unfold Mapper.scalar
  rw [hbase]
  split
  · exact ⟨_, rfl⟩
  · exact ⟨_, rfl⟩
  · exact ⟨_, rfl⟩
  · exact ⟨_, rfl⟩
  · exact ⟨_, rfl⟩
  · rename_i hnone
    cases hnone

theorem ok_keyType {t : FieldType} (h : t.Known) :
    ∃ x, keyType m resolve enumKeysAsNumbers t = .ok x := by
  unfold keyType
  split
  · exact exists_ok_pure.mpr (ok_scalar m h)
  · split
    · exact ⟨_, rfl⟩
    · exact ⟨_, rfl⟩
  · exact ⟨_, rfl⟩

theorem ok_typeName {t : FieldType} (h : t.Known) :
    ∃ x, typeName m resolve enumKeysAsNumbers t = .ok x := by
  induction t with
  | void => exact ⟨_, rfl⟩
  | base name => exact ok_scalar m h
  | identifier name => exact ⟨_, rfl⟩
  | list e ih => exact exists_ok_pure.mpr (ih h)
  | set e ih => exact exists_ok_pure.mpr (ih h)
  | map k v _ ih =>
      obtain ⟨key, hkey⟩ := ok_keyType m resolve enumKeysAsNumbers h.1
      exact exists_ok_bind.mpr ⟨key, hkey, exists_ok_pure.mpr (ih h.2)⟩
  | other kind name => exact h.elim

end Typescript

/-! ## Methods -/

namespace Plugin

open Generate (builtinBus)
open Load (Loader)
open Pipeline
open Typescript (Method ok_typeName)

theorem ok_methodOf (g : Registry) (enumKeysAsNumbers : Bool) (d : Document) (s : Service)
    {f : Function} (hreturns : f.returns.Known) (hparams : ∀ p ∈ f.params, p.type.Known)
    (route : RouteConfig) : ∃ m, methodOf g enumKeysAsNumbers d s f route = .ok m := by
  obtain ⟨response, hresponse⟩ :=
    ok_typeName g.types (g.symbols.resolver d) enumKeysAsNumbers hreturns
  unfold methodOf
  refine exists_ok_bind.mpr ⟨response, hresponse, ?_⟩
  split
  · exact ⟨_, rfl⟩
  · rename_i p ps hps
    exact exists_ok_pure.mpr (ok_typeName _ _ _ (hparams p (by simp [hps])))

/-- The method that a routed function becomes. -/
def Built (g : Registry) (enumKeysAsNumbers : Bool) (d : Document) (s : Service) (f : Function)
    (m : Method) : Prop :=
  ∃ route, f.route = some route ∧ methodOf g enumKeysAsNumbers d s f route = .ok m

def routed (s : Service) : List Function := s.functions.filter (·.route.isSome)

def named (ms : List Method) : Table Method := ms.map fun m => (m.name, m)

section Methods

variable {g : Registry} {keys : Bool} {d : Document} {s : Service}

theorem Built.name {f : Function} {m : Method} (h : Built g keys d s f m) :
    m.name = Text.lowerCamel f.name := by
  obtain ⟨route, -, h⟩ := h
  obtain ⟨response, -, h⟩ := ok_of_bind h
  split at h
  · obtain rfl := Except.ok.inj h
    rfl
  · obtain ⟨request, -, h⟩ := ok_of_bind h
    obtain rfl := Except.ok.inj h
    rfl

/-- Each routed function is built in turn, and takes its place among the methods. -/
theorem addMethods_built (g : Registry) (keys : Bool) (d : Document) (s : Service)
    {fs : List Function} (h : ∀ f ∈ fs, f.returns.Known ∧ ∀ p ∈ f.params, p.type.Known)
    (ms : List Method) :
    ∃ built, List.Forall₂ (Built g keys d s) (fs.filter (·.route.isSome)) built ∧
      addMethods g keys d s fs ms = .ok (built.foldl (fun ms m => upsert m ms) ms) := by
  induction fs generalizing ms with
  | nil => exact ⟨[], .nil, rfl⟩
  | cons f rest ih =>
      have hrest := ih fun f' hf' => h f' (List.mem_cons_of_mem f hf')
      unfold addMethods
      cases hroute : f.route with
      | none =>
          obtain ⟨built, hbuilt, hadded⟩ := hrest ms
          exact ⟨built, by simpa [hroute] using hbuilt, hadded⟩
      | some route =>
          obtain ⟨hreturns, hparams⟩ := h f List.mem_cons_self
          obtain ⟨m, hm⟩ := ok_methodOf g keys d s hreturns hparams route
          obtain ⟨built, hbuilt, hadded⟩ := hrest (upsert m ms)
          refine ⟨m :: built, ?_, ?_⟩
          · rw [List.filter_cons_of_pos (by simp [hroute])]
            exact .cons ⟨route, hroute, hm⟩ hbuilt
          · dsimp only
            rw [hm]
            exact hadded

end Methods

end Plugin
end ClientGen
