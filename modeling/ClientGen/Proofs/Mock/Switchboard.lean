import ClientGen.Config.Switchboard
import ClientGen.Proofs.Collection.Table
import ClientGen.Proofs.Json.Reading

/-! # The mock switchboard, merged and read back

A merged switchboard depends on which methods there are and on which choices were made, not on
order or repetition (`merge_congr`), and merging it again changes nothing. Its file reads
as the switchboard that it was written from (`prior_render`).
-/

namespace ClientGen
namespace Mock
namespace Switchboard

/-! ## Merging -/

section Merging

variable {prior : Option Switchboard} {methods more : List String} {x : String}

theorem mem_methods_merge : x ∈ (merge prior methods).methods ↔ x ∈ methods := mem_sortDistinct

theorem mem_enabled_merge :
    x ∈ (merge prior methods).enabled ↔ x ∈ methods ∧ ∃ s, prior = some s ∧ x ∈ s.enabled := by
  rw [merge, mem_sortDistinct, List.mem_filter, List.contains_iff_mem, and_comm]
  cases prior <;> simp

theorem pairwise_methods_merge : (merge prior methods).methods.Pairwise (· < ·) :=
  pairwise_sortDistinct methods

theorem pairwise_enabled_merge : (merge prior methods).enabled.Pairwise (· < ·) :=
  pairwise_sortDistinct _

/-- Neither the order of the methods nor a repetition makes a difference. -/
theorem merge_congr (h : ∀ x, x ∈ more ↔ x ∈ methods) : merge prior more = merge prior methods := by
  have henabled : ∀ names : List String, names.filter more.contains = names.filter methods.contains :=
    fun names => List.filter_congr fun x _ => by simp [h x]
  rw [merge, merge, sortDistinct_eq_iff.mpr h]
  simp only [henabled]

/-- Merged again with the same methods, a switchboard stays as it is. -/
theorem merge_merge (h : ∀ x, x ∈ more ↔ x ∈ methods) :
    merge (some (merge prior methods)) more = merge prior methods := by
  rw [merge_congr h]
  have hkept : (merge prior methods).enabled.filter methods.contains =
      (merge prior methods).enabled :=
    List.filter_eq_self.mpr fun x hx => List.contains_iff_mem.mpr (mem_enabled_merge.mp hx).1
  have hsorted : sortDistinct (merge prior methods).enabled = (merge prior methods).enabled :=
    sortDistinct_eq_iff.mpr fun _ => mem_sortDistinct
  have hagain : merge (some (merge prior methods)) methods =
      { methods := sortDistinct methods,
        enabled := sortDistinct ((merge prior methods).enabled.filter methods.contains) } := rfl
  rw [hagain, hkept, hsorted]
  rfl

end Merging

/-! ## Reading the file -/

section Reading

open Config (Layers jsonSettings? readSwitchboard)

variable {s : Switchboard} {names : List String}

theorem isNumberFree_namesJson (names : List String) : (namesJson names).isNumberFree = true := by
  rw [namesJson, Json.isNumberFree]
  induction names with
  | nil => rfl
  | cons name names ih => simpa [Json.itemsNumberFree, Json.isNumberFree] using ih

def methodsJson (s : Switchboard) : Json :=
  if s.methods.isEmpty then .null else namesJson s.methods

theorem toJson_eq (s : Switchboard) :
    s.toJson = .object [("methods", s.methodsJson), ("enabled", namesJson s.enabled)] := rfl

theorem read?_render (s : Switchboard) : Json.read? s.render = some s.toJson := by
  refine Json.read?_indented ?_ (by simp [Json.Reader.isBlank])
  have hmethods : s.methodsJson.isNumberFree = true := by
    rw [methodsJson]
    split
    · rfl
    · exact isNumberFree_namesJson s.methods
  simp [toJson_eq, Json.isNumberFree, Json.fieldsNumberFree, hmethods, isNumberFree_namesJson]

def namesSetting (names : List String) : Setting := .list (names.map .text)

theorem ofJson?_namesJson (names : List String) :
    Setting.ofJson? (namesJson names) = some (namesSetting names) := by
  have hitems : Setting.ofItems? (names.map .string) = some (names.map .text) := by
    induction names with
    | nil => rfl
    | cons name names ih => simp [Setting.ofItems?, Setting.ofJson?, ih]
  simp [namesJson, namesSetting, Setting.ofJson?, hitems]

theorem lowerKeys_namesSetting (names : List String) :
    (namesSetting names).lowerKeys = namesSetting names := by
  have hitems : Setting.lowerItems (names.map .text) = names.map .text := by
    induction names with
    | nil => rfl
    | cons name names ih => simp [Setting.lowerItems, Setting.lowerKeys, ih]
  rw [namesSetting, Setting.lowerKeys, hitems]

theorem asTexts?_namesSetting (names : List String) :
    (namesSetting names).asTexts? = some names := by
  have hitems : (names.map Setting.text).mapM Setting.asText? = some names := by
    induction names with
    | nil => rfl
    | cons name names ih => simp [Setting.asText?, ih]
  simpa [Setting.asTexts?, Setting.asItems, namesSetting] using hitems

/-- The settings of a file; no methods at all are null, which is no list of none yet. -/
def methodsSetting (s : Switchboard) : Setting :=
  if s.methods.isEmpty then .null else namesSetting s.methods

theorem jsonSettings?_render (s : Switchboard) : jsonSettings? s.render =
    some [("methods", s.methodsSetting), ("enabled", namesSetting s.enabled)] := by
  have hmethods : Setting.ofJson? s.methodsJson = some s.methodsSetting := by
    rw [methodsSetting, methodsJson]
    split
    · rfl
    · exact ofJson?_namesJson s.methods
  simp [jsonSettings?, read?_render, toJson_eq, Setting.ofJson?, Setting.ofFields?, hmethods,
    ofJson?_namesJson]

/-- A file gives a value to each of its keys, and none where it says null. -/
theorem get?_file {entries : List (String × Setting)} {key : String}
    (hkey : Text.split key "." = [key]) : ({ file := entries } : Layers).get? key =
      (Config.valueAt? entries key).bind fun s => Config.search? 0 s [] := by
  have hnone : Config.valueAt? [] key = none := rfl
  simp [Layers.get?, Layers.override?, Config.starts, Config.search?, hkey, hnone]

theorem settings_file (s : Switchboard) :
    let entries := [("methods", s.methodsSetting), ("enabled", namesSetting s.enabled)]
    Config.setting ({ file := entries } : Layers).settings "methods" = s.methodsSetting ∧
      Config.setting ({ file := entries } : Layers).settings "enabled" = namesSetting s.enabled := by
  intro entries
  have hsplit : Text.split "methods" "." = ["methods"] ∧ Text.split "enabled" "." = ["enabled"] := by
    decide
  have henabled : ({ file := entries } : Layers).get? "enabled" = some (namesSetting s.enabled) := by
    rw [get?_file hsplit.2]
    rfl
  have hmethods : ({ file := entries } : Layers).get? "methods" =
      if s.methods.isEmpty then none else some (namesSetting s.methods) := by
    rw [get?_file hsplit.1]
    show Config.search? 0 s.methodsSetting [] = _
    rw [methodsSetting]
    split <;> rfl
  have hkeys : ({ file := entries } : Layers).keys = ["methods", "enabled"] := by
    simp [Layers.keys, Config.flatten, entries, methodsSetting, namesSetting]
    split <;> rfl
  have hsettings : ({ file := entries } : Layers).settings =
      if s.methods.isEmpty then [("enabled", namesSetting s.enabled)]
      else [("methods", namesSetting s.methods), ("enabled", namesSetting s.enabled)] := by
    simp only [Layers.settings, hkeys, List.foldl_cons, List.foldl_nil, hmethods, henabled]
    cases s.methods.isEmpty <;> simp [Config.place, hsplit, Table.insert]
  rw [hsettings, methodsSetting]
  have hdiffer : Text.sameButCase "enabled" "methods" = false := by decide
  cases s.methods.isEmpty
  · exact ⟨rfl, rfl⟩
  · constructor
    · simp [Config.setting, Config.valueAt?, hdiffer, List.lookup_cons]
    · rfl

/-- A merged switchboard is what its file is read as. -/
theorem prior_render (s : Switchboard) : Config.prior (some s.render) = .known s := by
  have hlower : Text.lower "methods" = "methods" ∧ Text.lower "enabled" = "enabled" := by
    decide
  have hmethods : s.methodsSetting.lowerKeys = s.methodsSetting ∧
      s.methodsSetting.asTexts? = some s.methods := by
    rw [methodsSetting]
    split
    · rename_i hempty
      rw [List.isEmpty_iff.mp hempty]
      exact ⟨rfl, rfl⟩
    · exact ⟨lowerKeys_namesSetting _, asTexts?_namesSetting _⟩
  have hsettings := settings_file s
  simp only at hsettings
  simp [Config.prior, readSwitchboard, jsonSettings?_render, Setting.lowerEntries, hlower, hmethods,
    lowerKeys_namesSetting, hsettings, asTexts?_namesSetting]

end Reading

end Switchboard
end Mock
end ClientGen
