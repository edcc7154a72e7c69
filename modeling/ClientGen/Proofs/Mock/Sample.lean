import ClientGen.Mock.Sample
import ClientGen.Proofs.Value.Encoding

/-! # Types of scalar samples

The name of a field is read before its type. Of the four meanings that a name can have,
identifiers, times and states are numbers that the type turns into texts where it asks for
them; an address is a text whatever the type. So a sample has the type of its field unless
the name tells of an address and the field is a number (`sample_hasType_iff`).
-/

namespace ClientGen

/-- The values of a scalar type of generated code, as JSON has them. -/
inductive Value.HasType : String → Value → Prop
  | int (n : Int) : HasType "number" (.int n)
  | float (x : Float) (hx : (Value.float x).Encodable) : HasType "number" (.float x)
  | string (s : String) : HasType "string" (.string s)
  | bool (b : Bool) : HasType "boolean" (.bool b)

theorem Value.hasType_string_iff {type s : String} :
    HasType type (.string s) ↔ type = "string" := by
  constructor
  · rintro ⟨⟩
    rfl
  · rintro rfl
    exact .string s

namespace Mock

open Value (HasType hasType_string_iff)

/-- Names that end in an identifier are read as such even if they hold an address. -/
theorem ofName?_eq_email_iff (name : String) :
    Meaning.ofName? name = some .email ↔
      Text.endsWith (Text.upper name) "ID" = false ∧
        Text.contains (Text.upper name) "EMAIL" = true := by
  unfold Meaning.ofName?
  dsimp only
  split
  · simp [*]
  · split
    · simp [*]
    · split
      · simp [*]
      · split <;> simp [*]

section Scalars

variable {type : String}

theorem hasType_numberAs (h : type = "number" ∨ type = "string") (n : Nat) :
    HasType type (numberAs type n) := by
  unfold numberAs
  obtain rfl | rfl := h
  · exact .int n
  · exact .string (Text.ofNat n)

/-- The sample of an address is a text; the others are written as the type asks. -/
theorem hasType_meaning_iff (h : type = "number" ∨ type = "string") (seed : Nat) (m : Meaning) :
    HasType type (m.sample type seed) ↔ type = "string" ∨ m ≠ .email := by
  cases m with
  | id => simp [Meaning.sample, hasType_numberAs h]
  | email => simp [Meaning.sample, hasType_string_iff]
  | time => simp [Meaning.sample, hasType_numberAs h]
  | status => simp [Meaning.sample, hasType_numberAs h]

theorem hasType_typeSample (h : type ∈ ["number", "string", "boolean"]) (scalar name : String)
    (seed : Nat) : HasType type (typeSample type scalar name seed) := by
  simp only [List.mem_cons, List.not_mem_nil, or_false] at h
  obtain rfl | rfl | rfl := h
  · exact .int _
  · change HasType "string" (if scalar = "i64" then .string _ else .string _)
    split
    · exact .string _
    · exact .string _
  · exact .bool _

/-- Without a default a sample has the type that is asked for, unless that is a number and the
name tells of an address. -/
theorem hasType_scalarSample_iff {f : Field} (hdefault : f.default = .absent)
    (h : type ∈ ["number", "string", "boolean"]) (owner scalar : String) :
    HasType type (scalarSample owner f scalar type) ↔
      type ≠ "number" ∨ Meaning.ofName? f.name ≠ some .email := by
  unfold scalarSample
  dsimp only
  rw [hdefault]
  by_cases htold : type = "number" ∨ type = "string"
  · rw [if_pos htold]
    have hkind : type = "string" ↔ type ≠ "number" := by
      obtain rfl | rfl := htold <;> decide
    cases hm : Meaning.ofName? f.name with
    | none => simp [hasType_typeSample h]
    | some m => simp [hasType_meaning_iff htold, hkind]
  · rw [if_neg htold]
    have hnumber : type ≠ "number" := fun hn => htold (.inl hn)
    simp [hasType_typeSample h, hnumber]

end Scalars

/-- The sample of a scalar field without a default has the type that the field is mapped to,
except for a number whose name tells of an address and does not end in an identifier. -/
theorem sample_hasType_iff (owner : String) {f : Field} (m : Typescript.Mapper)
    {scalar type : String} (hf : f.type = .base scalar) (hdefault : f.default = .absent)
    (hscalar : m.scalar scalar = .ok type) (htype : type ∈ ["number", "string", "boolean"]) :
    HasType type (sample owner f m) ↔
      type ≠ "number" ∨ Text.endsWith (Text.upper f.name) "ID" = true ∨
        Text.contains (Text.upper f.name) "EMAIL" = false := by
  have hsample : sample owner f m = scalarSample owner f scalar type := by
    unfold sample
    rw [hf]
    dsimp only
    rw [hscalar]
  rw [hsample, hasType_scalarSample_iff hdefault htype, Ne, Ne, ofName?_eq_email_iff, not_and_or,
    Bool.not_eq_false, Bool.not_eq_true]

/-- The same field as a number and, where 64-bit integers are texts, as a text. -/
theorem sample_hasType_iff_emailCount :
    ¬ HasType "number" (sample "User" { name := "emailCount", type := .base "i64" } {}) ∧
      HasType "string"
        (sample "User" { name := "emailCount", type := .base "i64" } { i64 := "string" }) := by
  constructor
  · rw [sample_hasType_iff "User" {} rfl rfl rfl (by decide)]
    decide
  · exact (sample_hasType_iff "User" { i64 := "string" } rfl rfl rfl (by decide)).mpr
      (.inl (by decide))

/-- A number of addresses is sampled as an address. -/
theorem number_sampled_as_address :
    ({} : Typescript.Mapper).scalar "i32" = .ok "number" ∧
      sample "User" { name := "emailCount", type := .base "i32" } {} =
        .string "user803@example.com" ∧
      ¬ HasType "number" (sample "User" { name := "emailCount", type := .base "i32" } {}) := by
  have hsample : sample "User" { name := "emailCount", type := .base "i32" } {} =
      .string "user803@example.com" := by
    have hseed : Text.hash32 "User.emailCount" % 1000 = 803 := by decide +kernel
    change Value.string ("user" ++ Text.ofNat (Text.hash32 "User.emailCount" % 1000) ++ _) = _
    rw [hseed]
    rfl
  refine ⟨rfl, hsample, ?_⟩
  rw [hsample, hasType_string_iff]
  decide

end Mock
end ClientGen
