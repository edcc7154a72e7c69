import ClientGen.Proofs.Collection.Table
import ClientGen.Proofs.Number.Finite
import ClientGen.Proofs.Source.Failure
import ClientGen.Value.Basic

/-! # Values that have a JSON form

A value is written exactly if every number in it is finite (`ok_layout_iff`). The value
of a constant holds only the numbers that are written in it, so a constant in which no
infinity and no not-a-number is named has a JSON form (`Const.Plain.encodable`).
-/

namespace ClientGen

namespace Value

open Source (Failure exists_ok_bind exists_ok_pure)

/-! ## Numbers in a value -/

mutual

/-- The floating point numbers in a value, at any depth. -/
def floats : Value → List Float
  | null => []
  | bool _ => []
  | int _ => []
  | float x => [x]
  | string _ => []
  | list items => floatsOfItems items
  | map entries => floatsOfFields entries
  | record fields => floatsOfFields fields

def floatsOfItems : List Value → List Float
  | [] => []
  | v :: vs => v.floats ++ floatsOfItems vs

def floatsOfFields : List (String × Value) → List Float
  | [] => []
  | (_, v) :: rest => v.floats ++ floatsOfFields rest

end

/-- A value that JSON can represent: all numbers in it are finite. -/
def Encodable (v : Value) : Prop := ∀ x ∈ v.floats, Number.IsFinite x

theorem mem_floatsOfItems {items : List Value} {x : Float} :
    x ∈ floatsOfItems items ↔ ∃ v ∈ items, x ∈ v.floats := by
  induction items with
  | nil => simp [floatsOfItems]
  | cons v vs ih => simp [floatsOfItems, ih]

theorem mem_floatsOfFields {fields : List (String × Value)} {x : Float} :
    x ∈ floatsOfFields fields ↔ ∃ entry ∈ fields, x ∈ entry.2.floats := by
  induction fields with
  | nil => simp [floatsOfFields]
  | cons entry rest ih => simp [floatsOfFields, ih]

theorem encodable_list {items : List Value} :
    (list items).Encodable ↔ ∀ v ∈ items, v.Encodable := by
  simp only [Encodable, floats, mem_floatsOfItems]
  exact ⟨fun h v hv x hx => h x ⟨v, hv, hx⟩, fun h x ⟨v, hv, hx⟩ => h v hv x hx⟩

theorem encodable_record {fields : List (String × Value)} :
    (record fields).Encodable ↔ ∀ entry ∈ fields, entry.2.Encodable := by
  simp only [Encodable, floats, mem_floatsOfFields]
  exact ⟨fun h v hv x hx => h x ⟨v, hv, hx⟩, fun h x ⟨v, hv, hx⟩ => h v hv x hx⟩

/-! ## Writing -/

mutual

theorem ok_layout_iff (markup : Json.Markup) :
    (v : Value) → ((∃ l, v.layout markup = .ok l) ↔ v.Encodable)
  | null => by simp [layout, Encodable, floats]
  | bool b => by simp [layout, Encodable, floats]
  | int n => by simp [layout, Encodable, floats]
  | string s => by simp [layout, Encodable, floats]
  | float x => by
      have hfinite : (float x).Encodable ↔ Number.IsFinite x := by simp [Encodable, floats]
      rw [hfinite, ← Number.isSome_text?_iff Number.Layout.json]
      cases htext : Number.Layout.json.text? x <;> simp [layout, htext]
  | list items => by
      rw [encodable_list, ← ok_layoutItems_iff markup items]
      unfold layout
      exact exists_ok_pure
  | map entries => by
      have hfields : (map entries).Encodable ↔ (record entries).Encodable := Iff.rfl
      rw [hfields, encodable_record, ← ok_layoutFields_iff markup entries]
      unfold layout
      exact exists_ok_pure
  | record fields => by
      rw [encodable_record, ← ok_layoutFields_iff .escaped fields]
      unfold layout
      exact exists_ok_pure

theorem ok_layoutItems_iff (markup : Json.Markup) :
    (items : List Value) →
      ((∃ ls, layoutItems markup items = .ok ls) ↔ ∀ v ∈ items, v.Encodable)
  | [] => by simp [layoutItems]
  | v :: vs => by
      unfold layoutItems
      rw [exists_ok_bind, List.forall_mem_cons, ← ok_layout_iff markup v,
        ← ok_layoutItems_iff markup vs]
      simp only [exists_ok_pure]
      exact ⟨fun ⟨l, hl, hls⟩ => ⟨⟨l, hl⟩, hls⟩, fun ⟨⟨l, hl⟩, hls⟩ => ⟨l, hl, hls⟩⟩

theorem ok_layoutFields_iff (markup : Json.Markup) :
    (fields : List (String × Value)) →
      ((∃ ls, layoutFields markup fields = .ok ls) ↔ ∀ entry ∈ fields, entry.2.Encodable)
  | [] => by simp [layoutFields]
  | (k, v) :: rest => by
      unfold layoutFields
      rw [exists_ok_bind, List.forall_mem_cons, ← ok_layout_iff markup v,
        ← ok_layoutFields_iff markup rest]
      simp only [exists_ok_pure]
      exact ⟨fun ⟨l, hl, hls⟩ => ⟨⟨l, hl⟩, hls⟩, fun ⟨⟨l, hl⟩, hls⟩ => ⟨l, hl, hls⟩⟩

end

end Value

/-! ## Constants -/

namespace Const

mutual

/-- The spellings of floating point numbers in a constant. The keys of maps are texts,
whatever is written there. -/
def doubles : Const → List String
  | absent => []
  | scalar .double text => [text]
  | scalar _ _ => []
  | list items => doublesOfItems items
  | map pairs => doublesOfPairs pairs

def doublesOfItems : List Const → List String
  | [] => []
  | c :: cs => c.doubles ++ doublesOfItems cs

def doublesOfPairs : List (Const × Const) → List String
  | [] => []
  | (_, v) :: rest => v.doubles ++ doublesOfPairs rest

end

/-- A constant in which no infinity and no not-a-number is named. -/
def Plain (c : Const) : Prop := ∀ text ∈ c.doubles, Number.special? text = none

theorem plain_scalar {kind : ConstKind} (text : String) (h : kind ≠ .double) :
    (scalar kind text).Plain := by
  cases kind <;> first | exact absurd rfl h | simp [Plain, doubles]

theorem plain_list {items : List Const} (h : ∀ c ∈ items, c.Plain) : (list items).Plain := by
  have hall : ∀ text ∈ doublesOfItems items, Number.special? text = none := by
    induction items with
    | nil => simp [doublesOfItems]
    | cons c cs ih =>
        intro text htext
        rcases List.mem_append.mp htext with htext | htext
        · exact h c List.mem_cons_self text htext
        · exact ih (fun c' hc' => h c' (List.mem_cons_of_mem c hc')) text htext
  exact hall

theorem plain_map {pairs : List (Const × Const)} (h : ∀ pair ∈ pairs, pair.2.Plain) :
    (map pairs).Plain := by
  have hall : ∀ text ∈ doublesOfPairs pairs, Number.special? text = none := by
    induction pairs with
    | nil => simp [doublesOfPairs]
    | cons pair rest ih =>
        intro text htext
        rcases List.mem_append.mp htext with htext | htext
        · exact h pair List.mem_cons_self text htext
        · exact ih (fun p hp => h p (List.mem_cons_of_mem pair hp)) text htext
  exact hall

mutual

/-- The numbers in the value of a constant are read from it. -/
theorem spelled_of_mem_floats {x : Float} :
    (c : Const) → x ∈ (Value.ofConst c).floats →
      ∃ text ∈ c.doubles, Number.float? text = some x
  | absent, h => by cases h
  | scalar kind text, h => by
      cases kind with
      | double =>
          unfold Value.ofConst at h
          cases hx : Number.float? text with
          | none =>
              rw [hx] at h
              cases h
          | some y =>
              rw [hx] at h
              obtain rfl := List.mem_singleton.mp h
              exact ⟨text, List.mem_singleton.mpr rfl, hx⟩
      | int =>
          unfold Value.ofConst at h
          split at h <;> cases h
      | string => cases h
      | bool => cases h
      | identifier => cases h
      | other name => cases h
  | list items, h => spelled_of_mem_items items h
  | map pairs, h => by
      obtain ⟨entry, hentry, hx⟩ := Value.mem_floatsOfFields.mp h
      have hgiven := Table.mem_of_mem_ofList ((Table.sorted_perm _).mem_iff.mp hentry)
      exact spelled_of_mem_pairs pairs (Value.mem_floatsOfFields.mpr ⟨entry, hgiven, hx⟩)

theorem spelled_of_mem_items {x : Float} :
    (items : List Const) → x ∈ Value.floatsOfItems (Value.ofConstItems items) →
      ∃ text ∈ doublesOfItems items, Number.float? text = some x
  | [], h => by cases h
  | c :: cs, h => by
      rcases List.mem_append.mp h with h | h
      · obtain ⟨text, htext, hx⟩ := spelled_of_mem_floats c h
        exact ⟨text, List.mem_append_left _ htext, hx⟩
      · obtain ⟨text, htext, hx⟩ := spelled_of_mem_items cs h
        exact ⟨text, List.mem_append_right _ htext, hx⟩

theorem spelled_of_mem_pairs {x : Float} :
    (pairs : List (Const × Const)) → x ∈ Value.floatsOfFields (Value.ofConstPairs pairs) →
      ∃ text ∈ doublesOfPairs pairs, Number.float? text = some x
  | [], h => by cases h
  | (k, v) :: rest, h => by
      rcases List.mem_append.mp h with h | h
      · obtain ⟨text, htext, hx⟩ := spelled_of_mem_floats v h
        exact ⟨text, List.mem_append_left _ htext, hx⟩
      · obtain ⟨text, htext, hx⟩ := spelled_of_mem_pairs rest h
        exact ⟨text, List.mem_append_right _ htext, hx⟩

end

/-- The value of a plain constant has a JSON form. -/
theorem Plain.encodable {c : Const} (h : c.Plain) : (Value.ofConst c).Encodable := by
  intro x hx
  obtain ⟨text, htext, hread⟩ := c.spelled_of_mem_floats hx
  exact Number.finite_of_float? (h text htext) hread

end Const
end ClientGen
