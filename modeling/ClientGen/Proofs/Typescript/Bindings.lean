import ClientGen.Proofs.Typescript.Imports
import ClientGen.Text.Letter

/-! # Names of exported methods

A module exports each method under the name of its function in lower camel case. That keeps
the ASCII letters and digits of the function's name up to their case, and nothing else
(`map_toLower_lowerCamel`): an underscore in front of a digit is lost, and so are letters beyond
ASCII. A module is rendered if this leaves something of each name, but what is left may start
with a digit or be a word that a module reserves; the name can be bound exactly if it is neither.
-/

namespace ClientGen

/-! ## Camel case -/

namespace Text

/-- The letters and digits that a name in camel case is made of. -/
def isWordPart (c : Char) : Bool := isCapital c || isSmall c || c.isDigit

/-- The letters and digits of a text. -/
def wordParts (s : String) : List Char := s.toList.filter isWordPart

section Camel

variable {c : Char} {cs : List Char} {first capitalise afterCapital : Bool}

theorem toNat_lt_of_isWordPart (h : isWordPart c = true) : c.toNat < 128 := by
  simp only [isWordPart, isCapital, isSmall, Char.isDigit, Bool.or_eq_true, Bool.and_eq_true,
    decide_eq_true_eq] at h
  obtain (⟨-, hlast⟩ | ⟨-, hlast⟩) | ⟨-, hlast⟩ := h
  · have hle : c.toNat ≤ 90 := hlast
    omega
  · have hle : c.toNat ≤ 122 := hlast
    omega
  · have hle : c.toNat ≤ 57 := hlast
    omega

/-- What camel case does to one letter or digit, by going through ASCII. -/
theorem wordPart_camelChar (h : isWordPart c = true) :
    (∀ first capitalise afterCapital,
      isWordPart (camelChar first capitalise afterCapital c) = true ∧
        (camelChar first capitalise afterCapital c).toLower = c.toLower) ∧
      c.toLower.isDigit = c.isDigit ∧ c.isAlphanum = true ∧ ¬ isSpace c = true := by
  have hall : ∀ n < 128, isWordPart (Char.ofNat n) = true →
      (∀ first capitalise afterCapital,
        isWordPart (camelChar first capitalise afterCapital (Char.ofNat n)) = true ∧
          (camelChar first capitalise afterCapital (Char.ofNat n)).toLower =
            (Char.ofNat n).toLower) ∧
        (Char.ofNat n).toLower.isDigit = (Char.ofNat n).isDigit ∧
        (Char.ofNat n).isAlphanum = true ∧ ¬ isSpace (Char.ofNat n) = true := by
    decide +kernel
  have hascii := toNat_lt_of_isWordPart h
  rw [← Char.ofNat_toNat c] at h ⊢
  exact hall c.toNat hascii h

theorem isWordPart_camelChar (h : isWordPart c = true) :
    isWordPart (camelChar first capitalise afterCapital c) = true :=
  ((wordPart_camelChar h).1 first capitalise afterCapital).1

theorem toLower_camelChar (h : isWordPart c = true) :
    (camelChar first capitalise afterCapital c).toLower = c.toLower :=
  ((wordPart_camelChar h).1 first capitalise afterCapital).2

theorem isDigit_toLower (h : isWordPart c = true) : c.toLower.isDigit = c.isDigit :=
  (wordPart_camelChar h).2.1

theorem isAlphanum_of_isWordPart (h : isWordPart c = true) : c.isAlphanum = true :=
  (wordPart_camelChar h).2.2.1

theorem not_isSpace_of_isWordPart (h : isWordPart c = true) : ¬ isSpace c = true :=
  (wordPart_camelChar h).2.2.2

theorem isDigit_of_isWordPart (h : isWordPart c = true) : isDigit c = c.isDigit :=
  if_pos (toNat_lt_of_isWordPart h)

theorem isWordPart_of_mem_camelAux (h : c ∈ camelAux first capitalise afterCapital cs) :
    isWordPart c = true := by
  induction cs generalizing first capitalise afterCapital with
  | nil => cases h
  | cons d cs ih =>
      unfold camelAux at h
      split at h
      · rename_i hletter
        rcases List.mem_cons.mp h with rfl | h
        · exact isWordPart_camelChar (by simp [isWordPart, hletter])
        · exact ih h
      · split at h
        · rename_i hdigit
          rcases List.mem_cons.mp h with rfl | h
          · simp [isWordPart, hdigit]
          · exact ih h
        · exact ih h

theorem map_toLower_camelAux (cs : List Char) :
    (camelAux first capitalise afterCapital cs).map Char.toLower =
      (cs.filter isWordPart).map Char.toLower := by
  induction cs generalizing first capitalise afterCapital with
  | nil => rfl
  | cons c cs ih =>
      unfold camelAux
      split
      · rename_i hletter
        have hpart : isWordPart c = true := by simp [isWordPart, hletter]
        rw [List.filter_cons_of_pos hpart, List.map_cons, List.map_cons, ih,
          toLower_camelChar hpart]
      · rename_i hletter
        split
        · rename_i hdigit
          have hpart : isWordPart c = true := by simp [isWordPart, hdigit]
          rw [List.filter_cons_of_pos hpart, List.map_cons, List.map_cons, ih]
        · rename_i hdigit
          have hpart : ¬ isWordPart c = true := by
            rw [isWordPart, Bool.or_eq_true]
            exact not_or.mpr ⟨hletter, hdigit⟩
          rw [List.filter_cons_of_neg hpart, ih]

end Camel

theorem filter_dropWhile {p q : Char → Bool} (h : ∀ c, p c = true → ¬ q c = true)
    (cs : List Char) : (cs.dropWhile p).filter q = cs.filter q := by
  induction cs with
  | nil => rfl
  | cons c cs ih =>
      by_cases hc : p c = true
      · rw [List.dropWhile_cons_of_pos hc, ih, List.filter_cons_of_neg (h c hc)]
      · rw [List.dropWhile_cons_of_neg hc]

theorem wordParts_trim (s : String) : wordParts (trim s) = wordParts s := by
  have hblank : ∀ c, isSpace c = true → ¬ isWordPart c = true :=
    fun c hspace hpart => not_isSpace_of_isWordPart hpart hspace
  rw [wordParts, trim, trimBy, String.toList_ofList, dropTrailing, ← List.reverse_reverse
    (List.filter _ _), ← List.filter_reverse, List.reverse_reverse, filter_dropWhile hblank,
    List.filter_reverse, List.reverse_reverse, filter_dropWhile hblank, wordParts]

/-- Camel case keeps the letters and digits of a name, up to their case. -/
theorem map_toLower_lowerCamel (s : String) :
    (lowerCamel s).toList.map Char.toLower = (wordParts s).map Char.toLower := by
  rw [lowerCamel, String.toList_ofList, map_toLower_camelAux, ← wordParts_trim s, wordParts]

theorem isWordPart_of_mem_lowerCamel {s : String} {c : Char} (h : c ∈ (lowerCamel s).toList) :
    isWordPart c = true := by
  rw [lowerCamel, String.toList_ofList] at h
  exact isWordPart_of_mem_camelAux h

/-- The first letter or digit of a name decides whether it starts with a digit in camel
case. -/
theorem head_lowerCamel_digit_iff (s : String) :
    (∃ c, (lowerCamel s).toList.head? = some c ∧ isDigit c = true) ↔
      ∃ c, (wordParts s).head? = some c ∧ c.isDigit = true := by
  have hkeep := congrArg List.head? (map_toLower_lowerCamel s)
  rw [List.head?_map, List.head?_map] at hkeep
  cases hname : (lowerCamel s).toList.head? with
  | none =>
      rw [hname, Option.map_none] at hkeep
      simp [Option.map_eq_none_iff.mp hkeep.symm]
  | some c =>
      rw [hname, Option.map_some] at hkeep
      obtain ⟨d, hd, hlower⟩ := Option.map_eq_some_iff.mp hkeep.symm
      have hc : isWordPart c = true := isWordPart_of_mem_lowerCamel (List.mem_of_head? hname)
      have hpart : isWordPart d = true := (List.mem_filter.mp (List.mem_of_head? hd)).2
      have hsame : isDigit c = d.isDigit := by
        rw [isDigit_of_isWordPart hc, ← isDigit_toLower hc, ← hlower, isDigit_toLower hpart]
      simp [hd, hsame]

end Text

/-! ## Bindings -/

namespace Typescript

open Pipeline (Registry)
open Plugin (Built)
open Text (wordParts lowerCamel map_toLower_lowerCamel isWordPart_of_mem_lowerCamel
  isAlphanum_of_isWordPart head_lowerCamel_digit_iff)

/-- The words that a module reserves: keywords and literals, what strict code reserves, and
`await`. -/
def reservedWords : List String :=
  ["await", "break", "case", "catch", "class", "const", "continue", "debugger", "default",
    "delete", "do", "else", "enum", "export", "extends", "false", "finally", "for", "function",
    "if", "implements", "import", "in", "instanceof", "interface", "let", "new", "null",
    "package", "private", "protected", "public", "return", "static", "super", "switch", "this",
    "throw", "true", "try", "typeof", "var", "void", "while", "with", "yield"]

/-- Names that a declaration can bind. -/
structure IsBinding (name : String) : Prop where
  ne_empty : name ≠ ""
  head : ¬ ∃ c, name.toList.head? = some c ∧ Text.isDigit c = true
  unreserved : name ∉ reservedWords

section Exports

variable {module : ServiceModule} {provider text : String} {m : Method}

/-- Every method of a rendered module has a name and is exported under it. -/
theorem export_of_render (h : module.render provider = .ok text) (hm : m ∈ module.methods) :
    m.name ≠ "" ∧
      ∃ before after, text = before ++ "export const " ++ m.name ++ " = createAPI<" ++ after := by
  have hnamed : ∀ m ∈ module.methods, m.name ≠ "" := by
    intro m hm hname
    rw [render_unnamed ⟨m, hm, hname⟩] at h
    cases h
  obtain ⟨bodies, hbodies, hrender⟩ := render_module hnamed provider
  obtain ⟨body, hbody, hmethod⟩ := Source.exists_mem_of_forall₂ hbodies hm
  obtain ⟨front, back, rfl⟩ := List.append_of_mem hbody
  rw [Method.render, if_neg (hnamed m hm)] at hmethod
  obtain rfl := Except.ok.inj hmethod
  rw [hrender] at h
  obtain rfl := Except.ok.inj h
  refine ⟨hnamed m hm, ?_⟩
  generalize runtimeImport _ _ ++ _ ++ _ = imports
  refine ⟨imports ++ String.join (front.map fun b => "\n" ++ b) ++ "\n" ++ doc "" m.comments,
    m.typeArguments ++ ">(" ++ (m.wire (providerOr provider)).compact ++ ");\n" ++
      String.join (back.map fun b => "\n" ++ b), ?_⟩
  simp [String.append_assoc]

end Exports

/-- Which exported names can be bound. Let a routed function of a service become a method, and
let a module with this method be rendered. The module exports the method under the name of the
function in lower camel case, which is not empty and consists of ASCII letters and digits, those
of the function's name up to their case. It can be bound if and only if the first letter or digit
in the function's name is a letter and the name is no reserved word; the letters and digits of a
function whose method gets a reserved word spell this word. -/
theorem export_binding_iff {g : Registry} {keys : Bool} {d : Document} {s : Service} {f : Function}
    {m : Method} {module : ServiceModule} {provider text : String} (hbuilt : Built g keys d s f m)
    (hm : m ∈ module.methods) (haccepted : module.render provider = .ok text) :
    (∃ before after, text = before ++ "export const " ++ m.name ++ " = createAPI<" ++ after) ∧
      m.name = lowerCamel f.name ∧ m.name ≠ "" ∧ (∀ c ∈ m.name.toList, c.isAlphanum = true) ∧
      (IsBinding m.name ↔ (¬ ∃ c, (wordParts f.name).head? = some c ∧ c.isDigit = true) ∧
        m.name ∉ reservedWords) ∧
      (m.name ∈ reservedWords →
        (wordParts f.name).map Char.toLower = m.name.toList) := by
  obtain ⟨hname, hexported⟩ := export_of_render haccepted hm
  have hcamel := hbuilt.name
  refine ⟨hexported, hcamel, hname, fun c hc => ?_, ?_, fun hreserved => ?_⟩
  · rw [hcamel] at hc
    exact isAlphanum_of_isWordPart (isWordPart_of_mem_lowerCamel hc)
  · rw [hcamel, ← head_lowerCamel_digit_iff]
    exact ⟨fun h => ⟨h.head, h.unreserved⟩, fun h => ⟨hcamel ▸ hname, h.1, h.2⟩⟩
  · have hsmall : ∀ w ∈ reservedWords, w.toList.map Char.toLower = w.toList := by decide +kernel
    rw [← map_toLower_lowerCamel, ← hcamel, hsmall m.name hreserved]

/-- A function whose name has breaks, a digit and a letter beyond ASCII. -/
def pagesFunction : Function := { pageFunction with name := "_liste_übersicht2d" }

theorem export_binding_pages :
    let g : Registry := { symbols := Symbols.ofDocs [pageDocument] }
    ∃ m text, Built g false pageDocument { name := "S" } pagesFunction m ∧
      ({ methods := [m] } : ServiceModule).render "" = .ok text ∧ m.name = "Listebersicht2D" ∧
      IsBinding m.name ∧
      ∃ before after, text = before ++ "export const " ++ m.name ++ " = createAPI<" ++ after := by
  intro g
  obtain ⟨m, hm, hname⟩ : ∃ m, Built g false pageDocument { name := "S" } pagesFunction m ∧
      m.name = "Listebersicht2D" :=
    ⟨_, ⟨_, rfl, rfl⟩, by decide +kernel⟩
  have hnamed : ∀ m' ∈ ({ methods := [m] } : ServiceModule).methods, m'.name ≠ "" := by
    simp [hname]
  obtain ⟨bodies, -, hrender⟩ := render_module hnamed ""
  obtain ⟨hexported, -, -, -, hbinding, -⟩ :=
    export_binding_iff hm (List.mem_singleton_self m) hrender
  have hletter : ¬ ∃ c, (wordParts pagesFunction.name).head? = some c ∧ c.isDigit = true := by
    have hfirst : (wordParts pagesFunction.name).head? = some 'l' := by decide +kernel
    rw [hfirst]
    rintro ⟨c, hc, hdigit⟩
    obtain rfl := Option.some.inj hc
    exact absurd hdigit (by decide)
  refine ⟨m, _, hm, hrender, hname, hbinding.mpr ⟨hletter, ?_⟩, hexported⟩
  rw [hname]
  decide

/-- Two functions whose names the interface language takes as they are. -/
def unboundNames : String :=
  "struct R \x7b\x7d
service S \x7b
  R _1st(1: R r) (api.get = '/first')
  R delete(1: R r) (api.delete = '/r')
\x7d"

/-- A module exports names that no declaration can bind: in camel case one starts with a digit,
and the other is reserved. -/
theorem unbound_names_exported :
    ∃ d text, (Load.parseText .thrift "a.thrift" unboundNames true {}).1 = .ok d ∧
      ({ methods := methodsOf d } : ServiceModule).render "" = .ok text ∧
      ∀ name ∈ ["1St", "delete"], ¬ IsBinding name ∧
        ∃ before after, text = before ++ "export const " ++ name ++ " = createAPI<" ++ after := by
  have hnames : (Load.parseText .thrift "a.thrift" unboundNames true {}).1.toOption.map
      (fun d => (methodsOf d).map (·.name)) = some ["1St", "delete"] := by
    decide +kernel
  obtain ⟨d, hd, hnames⟩ := Option.map_eq_some_iff.mp hnames
  have hnamed : ∀ m ∈ ({ methods := methodsOf d } : ServiceModule).methods, m.name ≠ "" := by
    intro m hm
    have hname : m.name ∈ ["1St", "delete"] := hnames ▸ List.mem_map_of_mem hm
    rintro hempty
    rw [hempty] at hname
    exact absurd hname (by decide)
  obtain ⟨bodies, -, hrender⟩ := render_module hnamed ""
  refine ⟨d, _, Source.ok_of_toOption hd, hrender, fun name hname => ⟨?_, ?_⟩⟩
  · simp only [List.mem_cons, List.not_mem_nil, or_false] at hname
    obtain rfl | rfl := hname
    · exact fun h => h.head ⟨'1', by decide, by decide⟩
    · exact fun h => h.unreserved (by decide)
  · rw [← hnames] at hname
    obtain ⟨m, hm, rfl⟩ := List.mem_map.mp hname
    exact (export_of_render hrender hm).2

end Typescript
end ClientGen
