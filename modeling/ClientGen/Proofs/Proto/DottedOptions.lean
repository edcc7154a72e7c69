import Mathlib.Data.List.Forall2
import ClientGen.Proofs.Proto.RoundTrip
import ClientGen.Proto.Document

/-! # Aggregates and dotted names of options

An option may be given an aggregate: fields in braces and lists in brackets, nested to any
depth, with a scalar at each leaf. The same can be said by one option for each leaf, whose
name is that of the option with the keys down to the leaf behind it. `leaves` lists the
scalars of a value with their keys, in order. Reading a value gives one entry for each of its
leaves, under the path that the name of the option and the keys make (`reads_value`), and a
declaration has the annotations of the options in its body, in order
(`Annotated.reads_annotations`). An option that names a leaf has one entry, so a body that
spells a value out leaf by leaf has the annotations of the one that does not.
-/

namespace ClientGen
namespace Proto

open Source
open Source.Parser

/-! ## Scalars as they are written -/

inductive Sign where
  | plus | minus
deriving DecidableEq, Repr, Inhabited

def Sign.face : Sign → Face
  | plus => Face.mark .plus
  | minus => Face.mark .minus

def Sign.text : Sign → String
  | plus => ""
  | minus => "-"

inductive LeafForm where
  /-- Texts side by side, which are one text. -/
  | texts (first : String) (others : List String)
  /-- A whole or a floating point number, perhaps behind a sign. -/
  | number (sign : Option Sign) (float : Bool) (digits : String)
  /-- An infinity, or no number at all, behind a sign. -/
  | special (sign : Sign) (infinite : Bool)
  /-- A dotted name. Some words are values of their own. -/
  | name (name : String)
deriving DecidableEq, Repr, Inhabited

namespace LeafForm

def specialWord (infinite : Bool) : String := if infinite then "inf" else "nan"

def spelled : LeafForm → List Face
  | texts first others => Face.text first :: others.map Face.text
  | number none float digits => [Face.numeral float digits]
  | number (some sign) float digits => [sign.face, Face.numeral float digits]
  | special sign infinite => [sign.face, Face.word (specialWord infinite)]
  | name n => Face.dotted n

/-- The text of a scalar: without quotes, and without a plus sign. -/
def text : LeafForm → String
  | texts first others => String.join (first :: others)
  | number sign _ digits => (sign.map Sign.text).getD "" ++ digits
  | special sign infinite => sign.text ++ specialWord infinite
  | name n => n

def value (l : LeafForm) : Const :=
  match l with
  | texts _ _ => .scalar .string l.text
  | number _ float _ => .scalar (if float then .double else .int) l.text
  | special _ _ => .scalar .double l.text
  | name n => nameConst n

theorem constText_value (l : LeafForm) : constText l.value = l.text := by
  cases l <;> rfl

/-- A scalar starts with none of the brackets that structure a value. -/
theorem head_spelled (l : LeafForm) :
    ∃ f, l.spelled.head? = some f ∧ f.kind ∉ [TokenKind.curlyOpen, .squareOpen, .squareClose] := by
  have hsign : ∀ s : Sign, s.face.kind ∉ [TokenKind.curlyOpen, .squareOpen, .squareClose] := by
    intro s
    cases s <;> decide
  cases l with
  | texts first others => exact ⟨Face.text first, rfl, by simp⟩
  | number sign float digits =>
      cases sign with
      | none =>
          have hdigits : ∀ k ∈ [TokenKind.integerDecimal, .integerHex, .floatDecimal],
              k ∉ [TokenKind.curlyOpen, .squareOpen, .squareClose] := by decide
          exact ⟨_, rfl, hdigits _ (kind_numeral float digits).1⟩
      | some sign => exact ⟨sign.face, rfl, hsign sign⟩
  | special sign infinite => exact ⟨sign.face, rfl, hsign sign⟩
  | name n => exact ⟨_, head_dotted n, by simp⟩

theorem reads_spelled (l : LeafForm) : Reads scalarConst l.spelled afterValue (· = l.value) := by
  cases l with
  | texts first others => exact reads_texts first others
  | number sign float digits =>
      refine Reads.mono (m := anything) ?_ (fun _ _ => trivial) fun _ h => h
      cases sign with
      | none => exact (reads_numeral float digits).imp fun _ h => by simpa [value, text] using h
      | some sign =>
          cases sign with
          | plus => exact reads_plus (reads_signedNumeral "" _ float digits)
          | minus => exact reads_minus (reads_signedNumeral "-" _ float digits)
  | special sign infinite =>
      have hword : specialWord infinite = "inf" ∨ specialWord infinite = "nan" := by
        cases infinite <;> simp [specialWord]
      refine Reads.mono (m := anything) ?_ (fun _ _ => trivial) fun _ h => h
      cases sign with
      | plus => exact reads_plus (reads_signedWord "" _ hword)
      | minus => exact reads_minus (reads_signedWord "-" _ hword)
  | name n =>
      refine (reads_nameConst n).mono (fun o ho => ?_) fun _ h => h
      exact avoids_mono ho (by simp) (by simp)

end LeafForm

/-! ## Values as they are written -/

mutual

/-- A value: a scalar, values in brackets with or without a comma after the last one, or
fields in braces. -/
inductive NestedForm where
  | leaf (l : LeafForm)
  | list (items : List NestedForm) (comma : Bool)
  | aggregate (fields : List NestedField)

/-- A field of an aggregate with what closes it. Behind a key without a colon there is
another aggregate. -/
inductive NestedField where
  | assigned (key : KeyForm) (value : NestedForm) (close : Separator)
  | bare (key : KeyForm) (fields : List NestedField) (close : Separator)

end

mutual

def NestedForm.spelled : NestedForm → List Face
  | .leaf l => l.spelled
  | .list items comma =>
    Face.mark .squareOpen :: (spellNestedItems items comma ++ [Face.mark .squareClose])
  | .aggregate fields =>
    Face.mark .curlyOpen :: (spellNestedFields fields ++ [Face.mark .curlyClose])

def spellNestedItems : List NestedForm → Bool → List Face
  | [], _ => []
  | [v], comma => v.spelled ++ if comma then [Face.mark .comma] else []
  | v :: w :: vs, comma => v.spelled ++ Face.mark .comma :: spellNestedItems (w :: vs) comma

def spellNestedFields : List NestedField → List Face
  | [] => []
  | f :: fs => f.spelled ++ spellNestedFields fs

def NestedField.spelled : NestedField → List Face
  | .assigned key value close =>
    key.spelled ++ ([Face.mark .colon] ++ (value.spelled ++ close.faces))
  | .bare key fields close =>
    key.spelled ++ ([] ++ ((Face.mark .curlyOpen ::
      (spellNestedFields fields ++ [Face.mark .curlyClose])) ++ close.faces))

end

abbrev Leaf := List KeyForm × LeafForm

def Leaf.under (key : KeyForm) (l : Leaf) : Leaf := (key :: l.1, l.2)

mutual

/-- The scalars of a value in order. The items of a list share their keys. -/
def NestedForm.leaves : NestedForm → List Leaf
  | .leaf l => [([], l)]
  | .list items _ => leavesOfItems items
  | .aggregate fields => leavesOfFields fields

def leavesOfItems : List NestedForm → List Leaf
  | [] => []
  | v :: vs => v.leaves ++ leavesOfItems vs

def leavesOfFields : List NestedField → List Leaf
  | [] => []
  | f :: fs => f.leaves ++ leavesOfFields fs

def NestedField.leaves : NestedField → List Leaf
  | .assigned key value _ => value.leaves.map (Leaf.under key)
  | .bare key fields _ => (leavesOfFields fields).map (Leaf.under key)

end

theorem spellNestedItems_eq (items : List NestedForm) (comma : Bool) :
    spellNestedItems items comma = spellCommas NestedForm.spelled items comma := by
  induction items with
  | nil => rfl
  | cons v vs ih => cases vs <;> simp [spellNestedItems, spellCommas, ← ih]

theorem spellNestedFields_eq (fields : List NestedField) :
    spellNestedFields fields = fields.flatMap NestedField.spelled := by
  induction fields with
  | nil => rfl
  | cons f fs ih => simp [spellNestedFields, ih]

theorem leavesOfItems_eq (items : List NestedForm) :
    leavesOfItems items = items.flatMap NestedForm.leaves := by
  induction items with
  | nil => rfl
  | cons v vs ih => simp [leavesOfItems, ih]

theorem leavesOfFields_eq (fields : List NestedField) :
    leavesOfFields fields = fields.flatMap NestedField.leaves := by
  induction fields with
  | nil => rfl
  | cons f fs ih => simp [leavesOfFields, ih]

def below (path : String) (keys : List KeyForm) : String :=
  ".".intercalate (path :: keys.map KeyForm.name)

theorem below_cons (path : String) (key : KeyForm) (keys : List KeyForm) :
    below path (key :: keys) = below (path ++ "." ++ key.name) keys := by
  rw [below, below, List.map_cons, String.intercalate_cons_cons, String.intercalate_cons_append]

def Leaf.entry (path : String) (l : Leaf) : OptionTree :=
  { name := below path l.1, value := l.2.value }

theorem Leaf.entry_under (path : String) (key : KeyForm) (l : Leaf) :
    (l.under key).entry path = l.entry (path ++ "." ++ key.name) := by
  rw [entry, entry, under, below_cons]

theorem NestedForm.head_spelled (v : NestedForm) :
    ∃ f, v.spelled.head? = some f ∧ f.kind ≠ .squareClose := by
  cases v with
  | leaf l =>
      obtain ⟨f, hf, hk⟩ := l.head_spelled
      exact ⟨f, by rw [spelled, hf], fun h => hk (by simp [h])⟩
  | list items comma => exact ⟨Face.mark .squareOpen, rfl, by decide⟩
  | aggregate fields => exact ⟨Face.mark .curlyOpen, rfl, by decide⟩

theorem NestedField.head_spelled (f : NestedField) :
    ∃ k, f.spelled.head? = some k ∧ (k.kind = .identifier ∨ k.kind = .squareOpen) := by
  cases f with
  | assigned key value close =>
      obtain ⟨k, hk, hkind⟩ := head_key key
      exact ⟨k, by simp [spelled, hk], hkind⟩
  | bare key fields close =>
      obtain ⟨k, hk, hkind⟩ := head_key key
      exact ⟨k, by simp [spelled, hk], hkind⟩

/-- Reading a value gives the entries of its leaves, in order. -/
theorem reads_value (position : Position) (fuel : Nat) (v : NestedForm) (path : String)
    (hfuel : v.spelled.length < fuel) :
    ReadsEntries (optionValueAux position fuel path) v.spelled afterValue
      (v.leaves.map (Leaf.entry path)) := by
  induction fuel generalizing v path with
  | zero => omega
  | succ fuel ih =>
      cases v with
      | leaf l =>
          obtain ⟨f, hf, hk⟩ := l.head_spelled
          refine reads_scalarValue hf (fun h => hk ?_) l.reads_spelled
          exact (by decide : [TokenKind.curlyOpen, .squareOpen] ⊆
            [TokenKind.curlyOpen, .squareOpen, .squareClose]) h
      | list items comma =>
          have hheads : ∀ w ∈ items, ∃ f, w.spelled.head? = some f ∧ f.kind ≠ .squareClose :=
            fun w _ => w.head_spelled
          have hcount := length_le_spellCommas comma hheads
          simp only [NestedForm.spelled, spellNestedItems_eq, List.length_cons,
            List.length_append] at hfuel ⊢
          rw [NestedForm.leaves, leavesOfItems_eq, List.map_flatMap]
          refine reads_listValue items comma hheads (fun w hw => ?_) (by omega)
          have hle : w.spelled.length ≤ (spellCommas NestedForm.spelled items comma).length :=
            length_le_spellCommas_of_mem comma hw
          exact ih w path (by omega)
      | aggregate fields =>
          simp only [NestedForm.spelled, List.length_cons, List.length_append,
            spellNestedFields_eq] at hfuel ⊢
          rw [NestedForm.leaves, leavesOfFields_eq, List.map_flatMap]
          refine reads_aggregateValue fields (fun f _ => f.head_spelled) fun f hf => ?_
          have hle := length_le_flatMap_of_mem NestedField.spelled hf
          -- Both sorts of fields hold a value behind their key.
          have hentries : ∀ (key : KeyForm) (leaves : List Leaf),
              (leaves.map (Leaf.under key)).map (Leaf.entry path) =
                leaves.map (Leaf.entry (path ++ "." ++ key.name)) := by
            intro key leaves
            simp [Leaf.entry_under]
          cases f with
          | assigned key w close =>
              simp only [NestedField.spelled, List.length_append] at hle
              rw [NestedField.leaves, hentries]
              exact reads_aggregateField key true close (.inl rfl) (ih w _ (by omega))
          | bare key inner close =>
              simp only [NestedField.spelled, List.length_append] at hle
              rw [NestedField.leaves, hentries]
              refine reads_aggregateField key false close
                (.inr ⟨Face.mark .curlyOpen, rfl, rfl⟩) ?_
              exact ih (.aggregate inner) _ (by simp only [NestedForm.spelled]; omega)

/-! ## Options as statements -/

/-- An option as it is written in a statement, with any value. -/
structure Assignment where
  first : NamePart
  others : List NamePart := []
  value : NestedForm

namespace Assignment

def path (o : Assignment) : String := ".".intercalate ((o.first :: o.others).map NamePart.path)

def statement (o : Assignment) : List Face :=
  Face.word "option" ::
    (o.first.spelled ++ (o.others.flatMap fun p => Face.mark .dot :: p.spelled) ++
      (Face.mark .equal :: o.value.spelled) ++ [Face.mark .semicolon])

/-- The entries that an option stands for, one for each leaf of its value. -/
def entries (o : Assignment) : List OptionTree := o.value.leaves.map (Leaf.entry o.path)

/-- The keys and the values of the annotations that an option stands for. -/
def keyed (o : Assignment) : List (String × String) :=
  o.value.leaves.map fun l => (below o.path l.1, l.2.text)

theorem reads_statement (o : Assignment) :
    ReadsEntries optionStatement o.statement anything o.entries := by
  refine reads_statementOf (reads_optionOf o.first o.others fun position => ?_)
  exact reads_fuelled (p := fun fuel => optionValueAux position fuel o.path)
    fun fuel => reads_value position fuel o.value o.path

/-- Assignments with the same entries stand for the same annotations. -/
theorem map_entries (os : List Assignment) :
    (os.flatMap entries).map (fun e => (e.name, constText e.value)) = os.flatMap keyed := by
  rw [List.map_flatMap]
  congr 1
  funext o
  simp [entries, keyed, Leaf.entry, LeafForm.constText_value]

/-! ### One option for each leaf -/

/-- `d` gives one leaf of `o` alone: its name goes on from the name of `o` down the keys,
in whatever parts, and its value is the scalar there. -/
def Dots (o d : Assignment) (l : Leaf) : Prop :=
  d.path = below o.path l.1 ∧ d.value = .leaf l.2

def part : KeyForm → NamePart
  | .plain name => .plain name
  | .extension name => .extension false name

/-- The option for a leaf whose name has a part for each key. -/
def dotted (o : Assignment) (l : Leaf) : Assignment :=
  { first := o.first, others := o.others ++ l.1.map part, value := .leaf l.2 }

theorem path_part (k : KeyForm) : (part k).path = k.name := by
  cases k <;> rfl

theorem below_join (first : String) (parts : List String) (keys : List KeyForm) :
    below (".".intercalate (first :: parts)) keys =
      ".".intercalate (first :: (parts ++ keys.map KeyForm.name)) := by
  induction parts generalizing first with
  | nil => simp [below]
  | cons p ps ih =>
      simp only [below] at ih ⊢
      rw [String.intercalate_cons_cons, String.intercalate_cons_append, ih, List.cons_append,
        String.intercalate_cons_cons]

theorem dots_dotted (o : Assignment) (l : Leaf) : o.Dots (o.dotted l) l := by
  refine ⟨?_, rfl⟩
  have hparts : (l.1.map part).map NamePart.path = l.1.map KeyForm.name := by
    simp [Function.comp_def, path_part]
  simp only [path, dotted, List.map_cons, List.map_append, hparts, below_join]

/-- Spelling a value out leaf by leaf keeps the annotations. -/
theorem keyed_dots {o : Assignment} {ds : List Assignment}
    (h : List.Forall₂ o.Dots ds o.value.leaves) : ds.flatMap keyed = o.keyed := by
  rw [keyed]
  generalize o.value.leaves = ls at h
  induction h with
  | nil => rfl
  | cons hd _ ih =>
      obtain ⟨hpath, hvalue⟩ := hd
      rw [List.flatMap_cons, ih, List.map_cons, ← List.singleton_append]
      simp [keyed, hvalue, hpath, NestedForm.leaves, below]

end Assignment

/-! ## Bodies with options in them -/

/-- The declarations whose annotations stand as options in their bodies. -/
inductive Annotated where
  | message (name : String)
  | enum (name : String)
  | service (name : String)
  /-- A remote procedure behind its two ends. -/
  | rpc
deriving Repr, Inhabited

namespace Annotated

/-- The tokens before the body. -/
def opening : Annotated → List Face
  | message name => [Face.word "message", Face.word name, Face.mark .curlyOpen]
  | enum name => [Face.word "enum", Face.word name, Face.mark .curlyOpen]
  | service name => [Face.word "service", Face.word name, Face.mark .curlyOpen]
  | rpc => [Face.mark .curlyOpen]

def spelled (d : Annotated) (os : List Assignment) : List Face :=
  d.opening ++ (os.flatMap Assignment.statement ++ [Face.mark .curlyClose])

/-- What may follow. A remote procedure may have a semicolon of its own there. -/
def next : Annotated → Option Face → Prop
  | rpc => avoids [.semicolon] []
  | _ => anything

/-- The annotations of a declaration, in the order in which they are read. -/
def annotations : Annotated → Parser (List Annotation)
  | message _ => do return Proto.annotations (← Proto.message).options
  | enum _ => do return Proto.annotations (← enumDefinition).options
  | service _ => do return Proto.annotations (← serviceDefinition).options
  | rpc => do return Proto.annotations (← rpcBody)

end Annotated

/-- Options are read in a body whose items take an option in a statement. -/
theorem reads_assignments {β : Type} {item : Parser β} {e : β → List OptionTree}
    (hitem : ∀ o : Assignment, Reads item o.statement anything
      fun b => (e b).map OptionTree.erase = o.entries) (os : List Assignment) :
    Reads (upTo .curlyClose item)
      (os.flatMap Assignment.statement ++ [Face.mark .curlyClose]) anything
      fun bs => (bs.flatMap e).map OptionTree.erase = os.flatMap Assignment.entries := by
  refine (reads_upTo (m := anything) (e := fun b => (e b).map OptionTree.erase)
    (y := Assignment.entries) os trivial fun o _ => ?_).imp fun bs hbs => ?_
  · exact ⟨hitem o, Face.word "option", rfl, rfl, trivial⟩
  · rw [List.map_flatMap, List.flatMap_def, hbs, List.flatMap_def]

def keyValues (as : List Annotation) : List (String × String) := as.map fun a => (a.key, a.value)

theorem keyValues_annotations {read : List OptionTree} {os : List Assignment}
    (h : read.map OptionTree.erase = os.flatMap Assignment.entries) :
    keyValues (annotations read) = os.flatMap Assignment.keyed := by
  have herase : keyValues (annotations read) =
      (read.map OptionTree.erase).map fun e => (e.name, constText e.value) := by
    simp [keyValues, annotations, OptionTree.erase, Function.comp_def]
  rw [herase, h, Assignment.map_entries]

theorem Annotated.reads_annotations (d : Annotated) (os : List Assignment) :
    Reads d.annotations (d.spelled os) d.next (keyValues · = os.flatMap Assignment.keyed) := by
  cases d with
  | message name =>
      refine Reads.andThen (P := fun m : MessageTree =>
        m.options.map OptionTree.erase = os.flatMap Assignment.entries) ?_
        fun _ hm => Reads.pure (keyValues_annotations hm)
      refine reads_fuelled (p := messageAux) fun fuel hfuel => ?_
      obtain ⟨fuel, rfl⟩ : ∃ k, fuel = k + 1 := ⟨fuel - 1, by omega⟩
      refine reads_declaration "message" name
        (reads_assignments (fun o => reads_optionItem rfl ?_) os) fun _ _ _ _ _ hitems => hitems
      exact o.reads_statement.andThen fun _ hread => Reads.pure hread
  | enum name =>
      refine Reads.andThen (P := fun e : EnumTree =>
        e.options.map OptionTree.erase = os.flatMap Assignment.entries) ?_
        fun _ he => Reads.pure (keyValues_annotations he)
      refine reads_declaration "enum" name
        (reads_assignments (fun o => reads_optionItem rfl ?_) os) fun _ _ _ _ _ hitems => hitems
      exact o.reads_statement.andThen fun _ hread => Reads.pure hread
  | service name =>
      refine Reads.andThen (P := fun s : ServiceTree =>
        s.options.map OptionTree.erase = os.flatMap Assignment.entries) ?_
        fun _ hs => Reads.pure (keyValues_annotations hs)
      refine reads_declaration "service" name
        (reads_assignments (fun o => reads_optionItem rfl ?_) os) fun _ _ _ _ _ hitems => hitems
      exact o.reads_statement.andThen fun _ hread => Reads.pure hread
  | rpc =>
      have hitem : ∀ o : Assignment, Reads rpcItem o.statement anything
          fun os => (id os).map OptionTree.erase = o.entries :=
        fun o => reads_optionItem rfl o.reads_statement
      have hbody : ReadsEntries rpcBody (rpc.spelled os) (avoids [.semicolon] [])
          (os.flatMap Assignment.entries) := by
        unfold rpcBody
        refine (reads_accept rfl).token ?_
        rintro _ rfl
        refine ((reads_assignments hitem os).mono (fun _ _ => trivial) fun _ h => h).andThen
          fun items hitems => ?_
        refine reads_accept_none.andThen fun _ _ => Reads.pure ?_
        simpa using hitems
      exact hbody.andThen fun _ h => Reads.pure (keyValues_annotations h)

/-- An option whose value is nested to any depth gives the same annotations, in the same
order, as options for the leaves of the value one by one, wherever in a body they stand.
There are always such options, the names of which have a part for each key. -/
theorem Assignment.annotations_dotted (o : Assignment) :
    List.Forall₂ o.Dots (o.value.leaves.map o.dotted) o.value.leaves ∧
      ∀ ds : List Assignment, List.Forall₂ o.Dots ds o.value.leaves →
        ∀ (d : Annotated) (before after : List Assignment),
          Reads d.annotations (d.spelled (before ++ o :: after)) d.next
              (keyValues · = (before ++ o :: after).flatMap Assignment.keyed) ∧
            Reads d.annotations (d.spelled (before ++ (ds ++ after))) d.next
              (keyValues · = (before ++ o :: after).flatMap Assignment.keyed) := by
  constructor
  · rw [List.forall₂_map_left_iff, List.forall₂_same]
    exact fun l _ => o.dots_dotted l
  intro ds hds d before after
  have hsame : (before ++ (ds ++ after)).flatMap Assignment.keyed =
      (before ++ o :: after).flatMap Assignment.keyed := by
    simp only [List.flatMap_append, List.flatMap_cons, keyed_dots hds]
  refine ⟨d.reads_annotations _, ?_⟩
  rw [← hsame]
  exact d.reads_annotations _

/-- Braces in a list in braces, an extension for a key, a list of nothing, a text in two
pieces, and every sort of separator. -/
def nestedOption : Assignment :=
  { first := .extension true "api.route", others := [.plain "rule"],
    value := .aggregate [
      .assigned (.plain "get") (.leaf (.texts "/a" ["/b"])) .comma,
      .bare (.extension "x.y") [
        .assigned (.plain "depth") (.list [
          .leaf (.number (some .plus) false "1"),
          .leaf (.special .minus true),
          .aggregate [.assigned (.plain "on") (.leaf (.name "true")) .none]] true) .semicolon,
        .assigned (.plain "tags") (.list [] false) .none] .none] }

/-- The same, leaf by leaf. The parts of the names are not always the keys. -/
def spelledOut : List Assignment :=
  [{ first := .plain "api", others := [.plain "route", .plain "rule", .plain "get"],
     value := .leaf (.texts "/a" ["/b"]) },
   { first := .extension false "api.route.rule", others := [.extension true "x.y", .plain "depth"],
     value := .leaf (.number (some .plus) false "1") },
   { first := .extension true "api.route",
     others := [.plain "rule", .extension false "x.y", .plain "depth"],
     value := .leaf (.special .minus true) },
   { first := .extension true "api.route",
     others := [.plain "rule", .extension false "x.y", .plain "depth", .plain "on"],
     value := .leaf (.name "true") }]

theorem annotations_dotted_nested :
    ∃ as c as' c',
      (Annotated.message "M").annotations.run (Cursor.ofTokens "one.proto"
        (((Annotated.message "M").spelled [nestedOption]).map Face.token) {} 0) = (some as, c) ∧
      (Annotated.message "M").annotations.run (Cursor.ofTokens "four.proto"
        (((Annotated.message "M").spelled spelledOut).map Face.token) {} 0) = (some as', c') ∧
      keyValues as = [("api.route.rule.get", "/a/b"), ("api.route.rule.x.y.depth", "1"),
        ("api.route.rule.x.y.depth", "-inf"), ("api.route.rule.x.y.depth.on", "true")] ∧
      keyValues as' = keyValues as := by
  have hdots : List.Forall₂ nestedOption.Dots spelledOut nestedOption.value.leaves :=
    .cons ⟨by decide +kernel, rfl⟩ <| .cons ⟨by decide +kernel, rfl⟩ <|
      .cons ⟨by decide +kernel, rfl⟩ <| .cons ⟨by decide +kernel, rfl⟩ .nil
  obtain ⟨hone, hmany⟩ :=
    nestedOption.annotations_dotted.2 spelledOut hdots (.message "M") [] []
  obtain ⟨as, c, hrun, has, -⟩ := hone (Cursor.ofTokens "one.proto"
    (((Annotated.message "M").spelled [nestedOption]).map Face.token) {} 0) []
    (by decide +kernel) trivial
  obtain ⟨as', c', hrun', has', -⟩ := hmany (Cursor.ofTokens "four.proto"
    (((Annotated.message "M").spelled spelledOut).map Face.token) {} 0) []
    (by decide +kernel) trivial
  refine ⟨as, c, as', c', hrun, hrun', ?_, has'.trans has.symm⟩
  rw [has]
  decide +kernel

end Proto
end ClientGen
