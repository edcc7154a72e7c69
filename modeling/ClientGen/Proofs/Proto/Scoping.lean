import Mathlib.Data.List.Infix
import ClientGen.Document.Symbols
import ClientGen.Proofs.Files.Path
import ClientGen.Proofs.Proto.Flattening

/-! # References inside messages

A reference may stand for a declaration in any of the messages around it. The names
that it may stand for are tried from the innermost message outward; the first one that a
statement of the document has is what the reference means, and looking that name up finds
such a statement in the document itself. A reference for which no statement has any of these
names keeps its own.
-/

namespace ClientGen

namespace Text

/-- Replacing one character by another goes character by character. -/
theorem replace_single {old new : String} {a b : Char} (hold : old.toList = [a])
    (hnew : new.toList = [b]) (s : String) :
    replace s old new = s.map fun c => if c = a then b else c := by
  have hchars : ∀ cs : List Char,
      [b].intercalate (cs.splitOn a) = cs.map fun c => if c = a then b else c := by
    intro cs
    induction cs with
    | nil => rfl
    | cons c cs ih =>
        obtain ⟨field, fields, hsplit⟩ := List.exists_cons_of_ne_nil
          (show cs.splitOn a ≠ [] by simp [List.splitOn])
        rw [hsplit] at ih
        have hcons : (c :: cs).splitOn a =
            if c = a then [] :: field :: fields else (c :: field) :: fields := by
          rw [List.splitOn, List.splitOnP_cons_eq_if_modifyHead, ← List.splitOn, hsplit]
          simp
        rw [hcons, List.map_cons, ← ih]
        split
        · simp [List.intercalate_cons_cons]
        · cases fields <;> simp [List.intercalate_cons_cons]
  apply String.toList_injective
  rw [replace, split_single hold, toList_intercalate_ofList, hnew, hchars, String.toList_map]

end Text

namespace Symbols

/-- A name that a document declares means one of its statements there. -/
theorem resolve?_own {s : Symbols} {d : Document} {st : Statement} {name : String}
    (hd : s.docs.find? d.path = some d) (hst : st ∈ d.statements)
    (hname : declares name st = true) :
    ∃ st' ∈ d.statements, declares name st' = true ∧ s.resolve? d name = some (st', d) := by
  have hsome : (local? d name).isSome := by
    rw [local?, List.find?_isSome]
    exact ⟨st, List.mem_reverse.mpr hst, hname⟩
  obtain ⟨st', hlocal⟩ := Option.isSome_iff_exists.mp hsome
  have hat : s.at? d.path name = some st' := by simp [at?, hd, hlocal]
  refine ⟨st', List.mem_reverse.mp (List.mem_of_find?_eq_some hlocal),
    List.find?_some hlocal, ?_⟩
  rw [resolve?, hat]

end Symbols

namespace Proto

/-! ## Statements and their names -/

section Named

variable (declared : List String) (comments : CommentsOf) {st : Statement}

mutual

theorem MessageTree.typeName_lower (scope : List String) (m : MessageTree)
    (h : st ∈ m.lower declared scope comments) : st.typeName? = some st.name := by
  match m with
  | .mk origin name fields messages enums options =>
      simp only [MessageTree.lower, List.cons_append, List.mem_cons, List.mem_append,
        List.mem_map] at h
      rcases h with rfl | ⟨e, -, rfl⟩ | h
      · rfl
      · rfl
      · exact typeName_lowerAll (scope ++ [name]) messages h

theorem typeName_lowerAll (scope : List String) (ms : List MessageTree)
    (h : st ∈ lowerAll declared scope comments ms) : st.typeName? = some st.name := by
  match ms with
  | [] => simp [lowerAll] at h
  | m :: ms =>
      rw [lowerAll, List.mem_append] at h
      exact h.elim (m.typeName_lower scope) (typeName_lowerAll scope ms)

end

end Named

/-- The statements of a document are structures, enumerations and services. -/
theorem Tree.declares_iff {t : Tree} {path name : String} {comments : CommentsOf} {st : Statement}
    (h : st ∈ (t.document path comments).statements) :
    Symbols.declares name st = true ↔ st.typeName? = some name := by
  obtain ⟨d, -, hd⟩ := List.mem_flatMap.mp h
  have hnamed : st.typeName? = some st.name → (∀ s, st ≠ .service s) →
      (Symbols.declares name st = true ↔ st.typeName? = some name) := by
    intro hname hservice
    rw [hname]
    cases st with
    | service s => exact absurd rfl (hservice s)
    | _ => simp [Symbols.declares]
  have hservice : st.typeName? = some st.name → ∀ s, st ≠ .service s := by
    rintro hname s rfl
    cases hname
  cases d with
  | message m =>
      have hname := m.typeName_lower t.declared comments [] hd
      exact hnamed hname (hservice hname)
  | enum e =>
      obtain rfl := List.mem_singleton.mp hd
      exact hnamed rfl (hservice rfl)
  | service s =>
      obtain rfl := List.mem_singleton.mp hd
      simp [Symbols.declares, Statement.typeName?]

/-! ## What a reference means -/

/-- The names that a reference may stand for inside some messages: with underscores for
its dots, and behind the names of the messages around it, innermost first. -/
def candidates (scope : List String) (name : String) : List String :=
  scope.inits.reverse.map fun around =>
    "_".intercalate (around ++ [name.map fun c => if c = '.' then '_' else c])

theorem outward_eq (scope : List String) : outward scope = scope.inits.reverse := by
  have htake : (List.range (scope.length + 1)).map scope.take = scope.inits := by
    apply List.ext_getElem
    · simp
    · intro n hn hn'
      simp
  rw [outward, List.map_reverse, htake]

/-- A reference means the first of its candidates that is declared. -/
theorem resolveType_eq {declared scope : List String} {name : String}
    (hscalar : scalars.lookup name = none) (hdot : Text.startsWith name "." = false) :
    resolveType declared scope name =
      .identifier (((candidates scope name).find? declared.contains).getD name) := by
  have hreplace : Text.replace name "." "_" = name.map fun c => if c = '.' then '_' else c :=
    Text.replace_single rfl rfl name
  rw [resolveType, hscalar]
  simp only [hdot, outward_eq, hreplace]
  rfl

/-- Both passes over a file give the same names. A reference that names no scalar and stands
behind no dot means the first of its candidates, from the innermost message outward, that
is the name of a statement, and looking that up in the document finds a statement of its own
with this name; where no candidate is one, the reference keeps its name. -/
theorem Tree.resolveType_innermost (t : Tree) (path : String) (comments : CommentsOf) :
    let d := t.document path comments
    t.declared = typeNames d.statements ∧
      ∀ scope name, scalars.lookup name = none → Text.startsWith name "." = false →
        (∃ inner found outer, candidates scope name = inner ++ found :: outer ∧
            (∀ c ∈ inner, c ∉ typeNames d.statements) ∧ found ∈ typeNames d.statements ∧
            resolveType t.declared scope name = .identifier found ∧
            ∀ s : Symbols, s.docs.find? path = some d →
              ∃ st ∈ d.statements, st.typeName? = some found ∧
                s.resolve? d found = some (st, d)) ∨
          ((∀ c ∈ candidates scope name, c ∉ typeNames d.statements) ∧
            resolveType t.declared scope name = .identifier name) := by
  intro d
  have hnames : t.declared = typeNames d.statements := by
    rw [t.declared_eq, t.typeNames_document path comments]
  refine ⟨hnames, fun scope name hscalar hdot => ?_⟩
  rw [resolveType_eq hscalar hdot, hnames]
  cases hfind : (candidates scope name).find? (typeNames d.statements).contains with
  | none =>
      refine .inr ⟨fun c hc => ?_, rfl⟩
      simpa using List.find?_eq_none.mp hfind c hc
  | some found =>
      obtain ⟨hfound, inner, outer, hsplit, hinner⟩ := List.find?_eq_some_iff_append.mp hfind
      have hmem : found ∈ typeNames d.statements := by simpa using hfound
      refine .inl ⟨inner, found, outer, hsplit, fun c hc => by simpa using hinner c hc, hmem,
        rfl, fun s hs => ?_⟩
      obtain ⟨st, hst, hname⟩ := mem_typeNames.mp hmem
      obtain ⟨st', hst', hname', hresolve⟩ :=
        Symbols.resolve?_own (s := s) hs hst ((Tree.declares_iff hst).mpr hname)
      exact ⟨st', hst', (Tree.declares_iff hst').mp hname', hresolve⟩

/-- The message `C` is inside `B`, which is inside `A`; beside `A` stands a message whose
name the reference `B.C` may also mean. -/
def shadowed : Tree :=
  { definitions :=
      [.message (.mk {} "A" [] [.mk {} "B" [] [.mk {} "C" [] [] [] []] [] []] [] []),
       .message (.mk {} "B_C" [] [] [] [])] }

theorem resolveType_innermost_shadowed :
    let d := shadowed.document "a.proto" fun _ => []
    (scalars.lookup "B.C" = none ∧ Text.startsWith "B.C" "." = false) ∧
      candidates ["A", "B"] "B.C" = ["A_B_B_C", "A_B_C", "B_C"] ∧
      resolveType shadowed.declared ["A", "B"] "B.C" = .identifier "A_B_C" ∧
      ∃ st ∈ d.statements, st.typeName? = some "A_B_C" ∧
        (Symbols.ofDocs [d]).resolve? d "A_B_C" = some (st, d) := by
  intro d
  have hreference : scalars.lookup "B.C" = none ∧ Text.startsWith "B.C" "." = false := by
    decide +kernel
  have hcandidates : candidates ["A", "B"] "B.C" = ["A_B_B_C", "A_B_C", "B_C"] := by
    decide +kernel
  have hmeans : resolveType shadowed.declared ["A", "B"] "B.C" = .identifier "A_B_C" := by
    decide +kernel
  have hdeclared : "A_B_C" ∈ typeNames d.statements := by decide +kernel
  refine ⟨hreference, hcandidates, hmeans, ?_⟩
  rcases (shadowed.resolveType_innermost "a.proto" fun _ => []).2 ["A", "B"] "B.C" hreference.1
    hreference.2 with ⟨inner, found, outer, -, -, -, hfound, hresolve⟩ | ⟨hnone, -⟩
  · obtain rfl : found = "A_B_C" := FieldType.identifier.inj (hfound.symm.trans hmeans)
    exact hresolve (Symbols.ofDocs [d]) rfl
  · exact absurd hdeclared (hnone "A_B_C" (by simp [hcandidates]))

end Proto
end ClientGen
