import Mathlib.Data.List.Nodup
import ClientGen.Proto.Document

/-! # Names of flattened declarations

Every message and enumeration of a file has a full name: the names of the messages
around it, outermost first, and its own. Two passes go over a file, one that collects
names and one that emits statements, and both give a declaration the parts of its full
name with underscores between them, in the same order (`declared_eq`,
`typeNames_document`). An underscore may also stand inside a part, so that two full
names can be joined to one text; they then part at a message that has declarations in
it, and beside that message stands a declaration whose name starts with its name and an
underscore (`straddles_of_joined`). Where the full names of a file are distinct, its
statements have distinct names exactly if no such pair is joined alike.
-/

namespace ClientGen

def Statement.typeName? : Statement → Option String
  | .struct s => some s.name
  | .enum e => some e.name
  | _ => none

/-- The names of the structures and enumerations among some statements, in order. -/
def typeNames (statements : List Statement) : List String :=
  statements.filterMap Statement.typeName?

theorem typeNames_append (xs ys : List Statement) :
    typeNames (xs ++ ys) = typeNames xs ++ typeNames ys :=
  List.filterMap_append

theorem mem_typeNames {statements : List Statement} {name : String} :
    name ∈ typeNames statements ↔ ∃ st ∈ statements, st.typeName? = some name :=
  List.mem_filterMap

namespace Proto

/-! ## Full names -/

mutual

/-- The full names of a message and of everything in it: the names of the messages
around a declaration, then its own. -/
def MessageTree.paths (scope : List String) : MessageTree → List (List String)
  | .mk _ name _ messages enums _ =>
    let inner := scope ++ [name]
    inner :: (enums.map fun e => inner ++ [e.name]) ++ pathsAll inner messages

def pathsAll (scope : List String) : List MessageTree → List (List String)
  | [] => []
  | m :: ms => m.paths scope ++ pathsAll scope ms

end

/-- The full names that a declaration at the top brings. -/
def Definition.paths : Definition → List (List String)
  | .message m => m.paths []
  | .enum e => [[e.name]]
  | .service _ => []

/-- The full names of the messages and enumerations of a file. -/
def Tree.paths (t : Tree) : List (List String) := t.definitions.flatMap Definition.paths

mutual

theorem MessageTree.ne_nil_of_mem_paths {scope p : List String} (m : MessageTree)
    (h : p ∈ m.paths scope) : p ≠ [] := by
  match m with
  | .mk origin name fields messages enums options =>
      simp only [MessageTree.paths, List.cons_append, List.mem_cons, List.mem_append,
        List.mem_map] at h
      rcases h with rfl | ⟨e, -, rfl⟩ | h
      · simp
      · simp
      · exact ne_nil_of_mem_pathsAll messages h

theorem ne_nil_of_mem_pathsAll {scope p : List String} (ms : List MessageTree)
    (h : p ∈ pathsAll scope ms) : p ≠ [] := by
  match ms with
  | [] => simp [pathsAll] at h
  | m :: ms =>
      rw [pathsAll, List.mem_append] at h
      exact h.elim m.ne_nil_of_mem_paths (ne_nil_of_mem_pathsAll ms)

end

theorem Tree.ne_nil_of_mem_paths {t : Tree} {p : List String} (h : p ∈ t.paths) : p ≠ [] := by
  obtain ⟨d, -, hd⟩ := List.mem_flatMap.mp h
  cases d with
  | message m => exact m.ne_nil_of_mem_paths hd
  | enum e => simp_all [Definition.paths]
  | service s => simp [Definition.paths] at hd

/-! ## The two passes -/

/-- What stands in front of the names declared in a scope. -/
def lead (scope : List String) : String := String.join (scope.map (· ++ "_"))

theorem lead_concat (scope : List String) (name : String) :
    lead (scope ++ [name]) = lead scope ++ name ++ "_" := by
  simp [lead, String.join_append, String.append_assoc]

/-- Joining a full name is putting its last part behind those in front of it. -/
theorem intercalate_concat (scope : List String) (name : String) :
    "_".intercalate (scope ++ [name]) = lead scope ++ name := by
  induction scope with
  | nil => simp [lead, String.join]
  | cons s scope ih =>
      rw [List.cons_append, String.intercalate_cons_of_ne_nil (by simp), ih]
      simp [lead, String.append_assoc]

mutual

theorem MessageTree.declared_lead (scope : List String) (m : MessageTree) :
    m.declared (lead scope) = (m.paths scope).map "_".intercalate := by
  match m with
  | .mk origin name fields messages enums options =>
      have hinner := declaredAll_lead (scope ++ [name]) messages
      rw [lead_concat] at hinner
      simp only [MessageTree.declared, MessageTree.paths, List.map_append, List.map_cons,
        List.map_map, hinner, Function.comp_def, intercalate_concat, lead_concat]

theorem declaredAll_lead (scope : List String) (ms : List MessageTree) :
    declaredAll (lead scope) ms = (pathsAll scope ms).map "_".intercalate := by
  match ms with
  | [] => rfl
  | m :: ms =>
      rw [declaredAll, pathsAll, List.map_append, m.declared_lead scope, declaredAll_lead scope ms]

end

/-- The names that the first pass collects are the full names, joined. -/
theorem Tree.declared_eq (t : Tree) : t.declared = t.paths.map "_".intercalate := by
  rw [declared, paths, List.map_flatMap]
  congr
  funext d
  cases d with
  | message m => exact m.declared_lead []
  | enum e => simp [Definition.paths]
  | service s => rfl

section Emitted

variable (declared : List String) (comments : CommentsOf)

mutual

theorem MessageTree.typeNames_lower (scope : List String) (m : MessageTree) :
    typeNames (m.lower declared scope comments) = (m.paths scope).map "_".intercalate := by
  match m with
  | .mk origin name fields messages enums options =>
      have henums : typeNames (enums.map fun e => .enum (e.lower (scope ++ [name]) comments)) =
          (enums.map fun e => scope ++ [name] ++ [e.name]).map "_".intercalate := by
        rw [typeNames, List.filterMap_map, List.map_map, ← List.filterMap_eq_map]
        rfl
      have hinner := typeNames_lowerAll (scope ++ [name]) messages
      rw [MessageTree.lower, MessageTree.paths, List.map_append, List.map_cons, typeNames_append,
        hinner, ← henums]
      rfl

theorem typeNames_lowerAll (scope : List String) (ms : List MessageTree) :
    typeNames (lowerAll declared scope comments ms) =
      (pathsAll scope ms).map "_".intercalate := by
  match ms with
  | [] => rfl
  | m :: ms =>
      rw [lowerAll, pathsAll, typeNames_append, List.map_append, m.typeNames_lower scope,
        typeNames_lowerAll scope ms]

end

theorem Definition.typeNames_lower (d : Definition) :
    typeNames (d.lower declared comments) = d.paths.map "_".intercalate := by
  cases d with
  | message m => exact m.typeNames_lower declared comments []
  | enum e => rfl
  | service s => rfl

end Emitted

/-- The names of the statements that the second pass emits are the full names, joined. -/
theorem Tree.typeNames_document (t : Tree) (path : String) (comments : CommentsOf) :
    typeNames (t.document path comments).statements = t.paths.map "_".intercalate := by
  rw [document, paths, typeNames, List.filterMap_flatMap, List.map_flatMap]
  congr
  funext d
  exact d.typeNames_lower t.declared comments

/-! ## Full names that are joined alike -/

/-- Two full names that part at a message: the first one goes on inside the message, and
the second one beside it, in a declaration whose name starts with that of the message and
an underscore. -/
def Straddles : List String → List String → Prop
  | a :: p, b :: q => (a = b ∧ Straddles p q) ∨ (p ≠ [] ∧ (a ++ "_").toList <+: b.toList)
  | _, _ => False

instance decidableStraddles : (p q : List String) → Decidable (Straddles p q)
  | a :: p, b :: q =>
    have := decidableStraddles p q
    inferInstanceAs (Decidable
      ((a = b ∧ Straddles p q) ∨ (p ≠ [] ∧ (a ++ "_").toList <+: b.toList)))
  | [], _ => inferInstanceAs (Decidable False)
  | _ :: _, [] => inferInstanceAs (Decidable False)

theorem Straddles.ne {p q : List String} (h : Straddles p q) : p ≠ q := by
  induction p generalizing q with
  | nil => exact h.elim
  | cons a p ih =>
      cases q with
      | nil => exact h.elim
      | cons b q =>
          intro heq
          obtain ⟨rfl, rfl⟩ := List.cons.inj heq
          rcases h with ⟨-, h⟩ | ⟨-, hlonger⟩
          · exact ih h rfl
          · have hlength : a.toList.length + 1 ≤ a.toList.length := by
              simpa using hlonger.length_le
            omega

/-- Characters with more behind a mark: they are the same, or one of the two goes on
behind a mark. -/
theorem chars_of_joined {mark : Char} {a b s t : List Char}
    (h : a ++ mark :: s = b ++ mark :: t) :
    (a = b ∧ s = t) ∨ (∃ more, b = a ++ mark :: more) ∨ ∃ more, a = b ++ mark :: more := by
  rcases List.append_eq_append_iff.mp h with ⟨rest, rfl, hrest⟩ | ⟨rest, rfl, hrest⟩
  · cases rest with
    | nil => exact .inl ⟨by simp, by simpa using hrest⟩
    | cons c more =>
        obtain ⟨rfl, -⟩ := List.cons.inj hrest
        exact .inr (.inl ⟨more, rfl⟩)
  · cases rest with
    | nil => exact .inl ⟨by simp, by simpa using hrest.symm⟩
    | cons c more =>
        obtain ⟨rfl, -⟩ := List.cons.inj hrest
        exact .inr (.inr ⟨more, rfl⟩)

theorem names_of_joined {a b s t : String} (h : a ++ "_" ++ s = b ++ "_" ++ t) :
    (a = b ∧ s = t) ∨ (a ++ "_").toList <+: b.toList ∨ (b ++ "_").toList <+: a.toList := by
  have hchars : a.toList ++ '_' :: s.toList = b.toList ++ '_' :: t.toList := by
    simpa using congrArg String.toList h
  rcases chars_of_joined hchars with ⟨hab, hst⟩ | ⟨more, hmore⟩ | ⟨more, hmore⟩
  · exact .inl ⟨String.toList_injective hab, String.toList_injective hst⟩
  · exact .inr (.inl ⟨more, by simp [hmore]⟩)
  · exact .inr (.inr ⟨more, by simp [hmore]⟩)

/-- Different full names that are joined alike part at a message. -/
theorem straddles_of_joined {p q : List String} (hp : p ≠ []) (hq : q ≠ []) (hne : p ≠ q)
    (h : "_".intercalate p = "_".intercalate q) : Straddles p q ∨ Straddles q p := by
  induction p generalizing q with
  | nil => exact absurd rfl hp
  | cons a p ih =>
      cases q with
      | nil => exact absurd rfl hq
      | cons b q =>
          by_cases hp' : p = [] <;> by_cases hq' : q = []
          · subst hp' hq'
            simp_all
          · subst hp'
            rw [String.intercalate_singleton, String.intercalate_cons_of_ne_nil hq'] at h
            exact .inr (.inr ⟨hq', ("_".intercalate q).toList, by simp [h]⟩)
          · subst hq'
            rw [String.intercalate_singleton, String.intercalate_cons_of_ne_nil hp'] at h
            exact .inl (.inr ⟨hp', ("_".intercalate p).toList, by simp [← h]⟩)
          · rw [String.intercalate_cons_of_ne_nil hp', String.intercalate_cons_of_ne_nil hq'] at h
            rcases names_of_joined h with ⟨rfl, hrest⟩ | hlonger | hlonger
            · have hpq : p ≠ q := fun heq => hne (by rw [heq])
              exact (ih hp' hq' hpq hrest).imp (fun h => .inl ⟨rfl, h⟩) (fun h => .inl ⟨rfl, h⟩)
            · exact .inl (.inr ⟨hp', hlonger⟩)
            · exact .inr (.inr ⟨hq', hlonger⟩)

/-- Statements have distinct names exactly if no two full names that part at a message
are joined alike. So they do where nothing beside a message with declarations in it has a
name that starts with the name of the message and an underscore. -/
theorem Tree.typeNames_nodup (t : Tree) (path : String) (comments : CommentsOf)
    (hpaths : t.paths.Nodup) :
    ((typeNames (t.document path comments).statements).Nodup ↔
      ∀ p ∈ t.paths, ∀ q ∈ t.paths, Straddles p q → "_".intercalate p ≠ "_".intercalate q) ∧
    ((∀ p ∈ t.paths, ∀ q ∈ t.paths, ¬Straddles p q) →
      (typeNames (t.document path comments).statements).Nodup) := by
  have hiff : (typeNames (t.document path comments).statements).Nodup ↔
      ∀ p ∈ t.paths, ∀ q ∈ t.paths, Straddles p q → "_".intercalate p ≠ "_".intercalate q := by
    rw [t.typeNames_document path comments, List.nodup_map_iff_inj_on hpaths]
    constructor
    · intro hinj p hp q hq hstraddles hjoined
      exact hstraddles.ne (hinj p hp q hq hjoined)
    · intro happart p hp q hq hjoined
      by_contra hne
      rcases straddles_of_joined (Tree.ne_nil_of_mem_paths hp) (Tree.ne_nil_of_mem_paths hq) hne
        hjoined with hstraddles | hstraddles
      · exact happart p hp q hq hstraddles hjoined
      · exact happart q hq p hp hstraddles hjoined.symm
  refine ⟨hiff, fun hnone => hiff.mpr fun p hp q hq hstraddles => ?_⟩
  exact absurd hstraddles (hnone p hp q hq)

/-- Beside the message `A` stands `A_C`, and the names inside `A` have underscores. -/
def underscored : Tree :=
  { definitions :=
      [.message (.mk {} "A" [] [.mk {} "B_C" [] [] [] []] [{ name := "D_" }] []),
       .message (.mk {} "A_C" [] [.mk {} "D" [] [] [] []] [] [])] }

theorem typeNames_nodup_underscored :
    underscored.paths.Nodup ∧
      (typeNames (underscored.document "a.proto" fun _ => []).statements).Nodup := by
  have hpaths : underscored.paths.Nodup := by decide
  have happart : ∀ p ∈ underscored.paths, ∀ q ∈ underscored.paths,
      Straddles p q → "_".intercalate p ≠ "_".intercalate q := by decide
  exact ⟨hpaths, (underscored.typeNames_nodup "a.proto" (fun _ => []) hpaths).1.mpr happart⟩

/-- A message inside a message, and one beside it that is named like the two together. -/
def alikeText : String := "message A \x7b message B \x7b\x7d \x7d message A_B \x7b\x7d"

/-- The full names of a file are distinct and the names of its statements are not. -/
theorem joined_alike :
    (readTree "source" alikeText).toOption.map Tree.paths = some [["A"], ["A", "B"], ["A_B"]] ∧
      (parse "source" alikeText true {}).1.toOption.map (fun d => typeNames d.statements) =
        some ["A", "A_B", "A_B"] := by
  decide +kernel

end Proto
end ClientGen
