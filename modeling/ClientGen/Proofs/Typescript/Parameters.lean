import ClientGen.Proofs.Typescript.Imports

/-! # Parameters in paths

A segment of a path is a parameter if it is a colon with a name behind it. This is decided
twice, when the parameters of a path are listed and when the path is rendered, and both
decide alike (`isVerbatim_eq`). So the rendered path, the third type argument of a method,
the parameters that the provider is asked for and the import of the provider are all about
the same parameters.
-/

namespace ClientGen
namespace Typescript

/-! ## Segments -/

section Segments

variable {m : Method} {provider segment p : String}

theorem segmentParam?_eq_some_iff : segmentParam? segment = some p ↔ p ≠ "" ∧ segment = ":" ++ p := by
  constructor
  · intro h
    unfold segmentParam? at h
    split at h
    · rename_i c cs hchars
      obtain rfl := Option.some.inj h
      refine ⟨by simp, ?_⟩
      apply String.toList_injective
      simp [hchars]
    · cases h
  · rintro ⟨hp, rfl⟩
    obtain ⟨c, cs, hcs⟩ := List.exists_cons_of_ne_nil (by simpa using hp : p.toList ≠ [])
    have hchars : (":" ++ p).toList = ':' :: c :: cs := by simp [hcs]
    rw [segmentParam?, hchars]
    exact congrArg some (by rw [← hcs, String.ofList_toList])

theorem isVerbatim_eq (segment : String) :
    isVerbatim segment = (segmentParam? segment).isNone := by
  cases hparam : segmentParam? segment with
  | some p =>
      obtain ⟨hp, rfl⟩ := segmentParam?_eq_some_iff.mp hparam
      have hsize : p.utf8ByteSize ≠ 0 := by simpa using hp
      have hcolon : ":".utf8ByteSize = 1 := by decide
      have hlong : ¬ (":" ++ p).utf8ByteSize < 2 := by
        rw [String.utf8ByteSize_append]
        omega
      rw [isVerbatim, Text.startsWith_append, decide_eq_false hlong]
      rfl
  | none =>
      by_cases hstart : Text.startsWith segment ":" = true
      · obtain ⟨rest, hrest⟩ := Text.startsWith_iff.mp hstart
        have hsegment : segment = ":" ++ String.ofList rest := by
          apply String.toList_injective
          simp [← hrest]
        have hnone : String.ofList rest = "" := by
          by_contra hne
          rw [segmentParam?_eq_some_iff.mpr ⟨hne, hsegment⟩] at hparam
          cases hparam
        rw [hsegment, hnone]
        decide
      · simp [isVerbatim, hstart]

theorem placeholder_of_param (h : segmentParam? segment = some p) :
    m.placeholder provider segment =
      if m.mappedParams.contains p then "$\x7breq." ++ p ++ "\x7d"
      else "$\x7boption.pathParams?." ++ p ++ " ?? " ++ provider ++ "('" ++ p ++ "')\x7d" := by
  have hverbatim : isVerbatim segment = false := by rw [isVerbatim_eq, h]; rfl
  obtain ⟨-, rfl⟩ := segmentParam?_eq_some_iff.mp h
  rw [Method.placeholder, hverbatim, Text.dropStart_append]
  rfl

theorem placeholder_of_none (h : segmentParam? segment = none) :
    m.placeholder provider segment = segment := by
  rw [Method.placeholder, isVerbatim_eq, h]
  rfl

/-- What a segment of a path becomes when it is rendered. -/
inductive Stands (m : Method) (provider : String) : String → String → Prop
  | mapped {p : String} (hname : p ≠ "") (h : p ∈ m.mappedParams) :
      Stands m provider (":" ++ p) ("$\x7breq." ++ p ++ "\x7d")
  | asked {p : String} (hname : p ≠ "") (h : p ∉ m.mappedParams) :
      Stands m provider (":" ++ p)
        ("$\x7boption.pathParams?." ++ p ++ " ?? " ++ provider ++ "('" ++ p ++ "')\x7d")
  | verbatim {segment : String} (h : ∀ p, p ≠ "" → segment ≠ ":" ++ p) :
      Stands m provider segment segment

theorem stands_placeholder (m : Method) (provider segment : String) :
    Stands m provider segment (m.placeholder provider segment) := by
  cases hparam : segmentParam? segment with
  | none =>
      rw [placeholder_of_none hparam]
      refine .verbatim fun p hp hsegment => ?_
      rw [segmentParam?_eq_some_iff.mpr ⟨hp, hsegment⟩] at hparam
      cases hparam
  | some p =>
      rw [placeholder_of_param hparam]
      obtain ⟨hp, rfl⟩ := segmentParam?_eq_some_iff.mp hparam
      by_cases hmapped : p ∈ m.mappedParams
      · rw [if_pos (by simpa using hmapped)]
        exact .mapped hp hmapped
      · rw [if_neg (by simpa using hmapped)]
        exact .asked hp hmapped

theorem unmapped_eq (m : Method) :
    m.unmapped = m.pathParams.filter fun p => !m.mappedParams.contains p := by
  have hparams : ∀ ss : List String, (ss.filter fun s => !isVerbatim s).map
      (fun s => Text.dropStart s ":") = ss.filterMap segmentParam? := by
    intro ss
    induction ss with
    | nil => rfl
    | cons s ss ih =>
        cases hparam : segmentParam? s with
        | none => simpa [isVerbatim_eq, hparam] using ih
        | some p =>
            obtain ⟨-, rfl⟩ := segmentParam?_eq_some_iff.mp hparam
            simpa [isVerbatim_eq, hparam, Text.dropStart_append] using ih
  rw [Method.unmapped, hparams, Method.pathParams]

theorem mem_unmapped : p ∈ m.unmapped ↔ p ∈ m.pathParams ∧ p ∉ m.mappedParams := by
  rw [unmapped_eq, List.mem_filter]
  simp

end Segments

/-! ## Methods -/

section Methods

variable {m : Method}

/-- A type text, or that of anything where there is none. -/
def typeOrAny (type : String) : String := if type = "" then "any" else type

/-- The type argument that lists some parameters; there is none without parameters. -/
def paramsArgument (params : List String) : List String :=
  if params = [] then []
  else ["\x7b" ++ "; ".intercalate (params.map (· ++ ": string | number")) ++ "\x7d"]

theorem paramsArgument_eq_nil_iff {params : List String} : paramsArgument params = [] ↔ params = [] := by
  unfold paramsArgument
  split
  · simp_all
  · simp_all

theorem typeArguments_eq (m : Method) : m.typeArguments =
    ", ".intercalate ([typeOrAny m.request, typeOrAny m.response] ++ paramsArgument m.unmapped) := by
  simp [Method.typeArguments, typeOrAny, paramsArgument]

/-- The description of a method starts with its path, which stands nowhere else in it. -/
theorem exists_wire_eq (m : Method) (provider : String) : ∃ fields,
    m.wire provider = .object (("url", .string (m.renderedUrl provider)) :: fields) ∧
      "url" ∉ fields.map (·.1) := by
  refine ⟨_, rfl, ?_⟩
  by_cases hmapping : m.mapping = []
  · by_cases hserializer : m.serializer = ""
    · by_cases hgroup : m.group = "" <;> simp [hmapping, hserializer, hgroup]
    · by_cases hgroup : m.group = "" <;> simp [hmapping, hserializer, hgroup]
  · by_cases hserializer : m.serializer = ""
    · by_cases hgroup : m.group = "" <;> simp [hmapping, hserializer, hgroup]
    · by_cases hgroup : m.group = "" <;> simp [hmapping, hserializer, hgroup]

theorem forall₂_stands (m : Method) (provider : String) (segments : List String) :
    List.Forall₂ (Stands m provider) segments (segments.map (m.placeholder provider)) := by
  induction segments with
  | nil => exact .nil
  | cons s segments ih => exact .cons (stands_placeholder m provider s) ih

/-- The provider is asked for a parameter of some method. -/
theorem any_unmapped_iff {methods : List Method} :
    (methods.any fun m => !m.unmapped.isEmpty) = true ↔
      ∃ m ∈ methods, ∃ p ∈ m.pathParams, p ∉ m.mappedParams := by
  rw [List.any_eq_true]
  refine exists_congr fun m => and_congr_right fun _ => ?_
  rw [Bool.not_eq_true', List.isEmpty_eq_false_iff_exists_mem]
  exact exists_congr fun p => mem_unmapped

end Methods

/-- How the parameters in paths are rendered. For every method with a name and every
provider, the unmapped parameters are those of the path without those that request fields are
mapped to, in the order of the path. The path in the rendered text has a placeholder for each
segment that is a parameter, and keeps all other segments. The third type argument is there
exactly if some parameter is unmapped, and lists the unmapped ones. A service module has the
provider among the names that it imports from the runtime exactly if one of its methods has a
parameter outside its mapping; only a method without a name keeps it from being rendered. -/
theorem render_params {m : Method} (hname : m.name ≠ "") (provider : String)
    (module : ServiceModule) :
    m.unmapped = (m.pathParams.filter fun p => !m.mappedParams.contains p) ∧
      (∃ url fields third,
        m.render provider = .ok (doc "" m.comments ++ "export const " ++ m.name ++ " = createAPI<" ++
          ", ".intercalate ([typeOrAny m.request, typeOrAny m.response] ++ third) ++ ">(" ++
          (Json.object (("url", .string ("/".intercalate url)) :: fields)).compact ++ ");\n") ∧
        "url" ∉ fields.map (·.1) ∧
        List.Forall₂ (Stands m (providerOr provider)) (Text.split m.url "/") url ∧
        (third = [] ↔ m.unmapped = []) ∧
        (m.unmapped ≠ [] → third =
          ["\x7b" ++ "; ".intercalate (m.unmapped.map (· ++ ": string | number")) ++ "\x7d"])) ∧
      ((∀ m ∈ module.methods, m.name ≠ "") → ∃ names bodies,
        List.Forall₂ (fun m body => m.render provider = .ok body) module.methods bodies ∧
        module.render provider = .ok (runtimeImport ("createAPI" :: names) module.runtime ++
          typeImport module.typeNames module.types ++
          String.join (module.imports.map fun i => Text.dropEnd i "\n" ++ "\n") ++
          String.join (bodies.map fun b => "\n" ++ b)) ∧
        (names = [providerOr provider] ∨ names = []) ∧
        (names ≠ [] ↔ ∃ m ∈ module.methods, ∃ p ∈ m.pathParams, p ∉ m.mappedParams)) ∧
      ((∃ m ∈ module.methods, m.name = "") →
        module.render provider = .error (.plain "method without a name")) := by
  refine ⟨unmapped_eq m, ?_, fun hnamed => ?_, fun hunnamed => render_unnamed hunnamed provider⟩
  · obtain ⟨fields, hwire, hfields⟩ := exists_wire_eq m (providerOr provider)
    refine ⟨_, fields, paramsArgument m.unmapped, ?_, hfields,
      forall₂_stands m (providerOr provider) m.segments, paramsArgument_eq_nil_iff, fun hasked => if_neg hasked⟩
    rw [← typeArguments_eq]
    change _ = Except.ok (_ ++ (Json.object
      (("url", .string (m.renderedUrl (providerOr provider))) :: fields)).compact ++ _)
    rw [← hwire]
    exact if_neg hname
  · obtain ⟨bodies, hbodies, hrender⟩ := render_module hnamed provider
    refine ⟨_, bodies, hbodies, hrender, ?_, ?_⟩
    · split
      · exact .inl rfl
      · exact .inr rfl
    · rw [← any_unmapped_iff]
      split
      · simp_all
      · simp_all

/-- A method with a mapped parameter, one that stands twice and is not mapped, and a colon
alone. -/
def orderMethod : Method :=
  { name := "getOrder", request := "Order", url := "/:tenant/orders/:id/:/:tenant", verb := "GET",
    mapping := [("path", ["id"])] }

theorem render_params_order :
    orderMethod.name ≠ "" ∧ orderMethod.unmapped = ["tenant", "tenant"] ∧
      (∃ url fields, orderMethod.render "" = .ok ("export const getOrder = createAPI<" ++
          "Order, any, \x7btenant: string | number; tenant: string | number\x7d>(" ++
          (Json.object (("url", .string ("/".intercalate url)) :: fields)).compact ++ ");\n") ∧
        List.Forall₂ (Stands orderMethod "getDefaultPathParam")
          ["", ":tenant", "orders", ":id", ":", ":tenant"] url) ∧
      ∃ rest, ({ methods := [orderMethod] } : ServiceModule).render "" =
        .ok (runtimeImport ["createAPI", "getDefaultPathParam"] "" ++ rest) := by
  have hname : orderMethod.name ≠ "" := by decide
  have hnamed : ∀ m ∈ [orderMethod], m.name ≠ "" := by simpa using hname
  obtain ⟨hunmapped, ⟨url, fields, third, hrender, -, hsegments, -, hthird⟩, hmodule, -⟩ :=
    render_params hname "" { methods := [orderMethod] }
  have hparams : orderMethod.unmapped = ["tenant", "tenant"] := by
    rw [hunmapped]
    decide +kernel
  have hasked : ∃ m ∈ [orderMethod], ∃ p ∈ m.pathParams, p ∉ m.mappedParams :=
    ⟨orderMethod, List.mem_singleton_self _, "tenant", by decide +kernel⟩
  have hsplit : Text.split orderMethod.url "/" =
      ["", ":tenant", "orders", ":id", ":", ":tenant"] := by decide +kernel
  rw [hthird (by rw [hparams]; exact List.cons_ne_nil _ _), hparams] at hrender
  refine ⟨hname, hparams, ⟨url, fields, ?_, hsplit ▸ hsegments⟩, ?_⟩
  · simpa [orderMethod, doc, typeOrAny, String.append_assoc] using hrender
  · obtain ⟨names, bodies, -, hrendered, hnames, hiff⟩ := hmodule hnamed
    obtain rfl := hnames.resolve_right (hiff.mpr hasked)
    rw [hrendered, String.append_assoc, String.append_assoc]
    exact ⟨_, rfl⟩

end Typescript
end ClientGen
