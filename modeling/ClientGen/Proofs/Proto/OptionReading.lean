import ClientGen.Proofs.Proto.OptionSpelling

/-! # Reading options back

Every written option is read into the entries that it stands for. The value is the
recursive part: a list shares its path among its items, an aggregate extends it
by a key, and a scalar must not run into a text or a dot after it.
-/

namespace ClientGen
namespace Proto

open Source
open Source.Parser

/-! ## Scalars -/

/-- What may follow a value: nothing that a scalar could go on with. -/
def afterValue : Option Face → Prop := avoids [.dot, .text] []

theorem reads_texts (first : String) (others : List String) :
    Reads scalarConst (Face.text first :: others.map Face.text) afterValue
      (· = .scalar .string (String.join (first :: others))) := by
  have hloop : Reads (whileDo (fun c => c.is .text) (expect .text))
      ((first :: others).flatMap fun s => [Face.text s]) afterValue
      fun ts => ts.map Token.value = (first :: others).map id := by
    refine reads_whileDo (m := anything) (Cursor.is_eq · .text) ?_ _ ?_
    · intro o ho
      refine ⟨?_, trivial⟩
      cases o with
      | none => rfl
      | some f => simpa using fun h => (avoids_some.mp ho).1 (by simp [h])
    · exact fun s _ => ⟨reads_text s, Face.text s, rfl, rfl, trivial⟩
  rw [List.map_id, ← List.map_eq_flatMap] at hloop
  unfold scalarConst
  refine (reads_kind (some .text)).ahead (fun o _ => rfl) ?_
  rintro _ rfl
  refine hloop.andThen fun ts hts => Reads.pure ?_
  rw [show ts.map (·.value) = first :: others from hts]

theorem reads_numeral (float : Bool) (digits : String) :
    Reads scalarConst [Face.numeral float digits] anything
      (· = .scalar (if float then .double else .int) digits) := by
  have hread : Reads (expectOf [.integerDecimal, .integerHex, .floatDecimal] >>= fun t =>
      (pure (Const.ofNumber "" t) : Parser Const)) [Face.numeral float digits] anything
      (· = .scalar (if float then .double else .int) digits) := by
    refine (reads_expectOf (kind_numeral float digits).1).token fun t ht => Reads.pure ?_
    rw [ofNumber_numeral "" ht, String.empty_append]
  unfold scalarConst
  refine (reads_kind (some (Face.numeral float digits).kind)).ahead (fun o _ => by simp) ?_
  rintro _ rfl
  have hkind := (kind_numeral float digits).1
  simp only [List.mem_cons, List.not_mem_nil, or_false] at hkind
  rcases hkind with h | h | h
  · rw [h]
    exact hread
  · rw [h]
    exact hread
  · rw [h]
    exact hread

/-- A number behind a sign, which is one of the two words if it is no numeral. -/
theorem reads_signedNumeral (sign : String) (f : Face) (float : Bool) (digits : String) :
    Reads (signedConst sign) [f, Face.numeral float digits] anything
      (· = .scalar (if float then .double else .int) (sign ++ digits)) := by
  have hface := (kind_numeral float digits).1
  have hkind : (Face.numeral float digits).kind ≠ .identifier := by
    intro h
    simp [h] at hface
  unfold signedConst
  refine (reads_advance _).token fun _ _ => ?_
  refine reads_acceptWord_none.ahead (fun o _ => ?_) ?_
  · exact avoids_some.mpr ⟨by simp, Face.isWord_eq_false_of_kind hkind _⟩
  · rintro _ rfl
    refine (reads_expectOf hface).token fun t ht => Reads.pure ?_
    rw [ofNumber_numeral sign ht]

theorem reads_signedWord (sign : String) (f : Face) {word : String}
    (h : word = "inf" ∨ word = "nan") :
    Reads (signedConst sign) [f, Face.word word] anything
      (· = .scalar .double (sign ++ word)) := by
  unfold signedConst
  refine (reads_advance _).token fun _ _ => ?_
  refine (reads_acceptWord (by simpa using h)).token ?_
  rintro _ rfl
  exact Reads.pure rfl

theorem reads_minus {s : List Face} {P : Const → Prop}
    (h : Reads (signedConst "-") (Face.mark .minus :: s) anything P) :
    Reads scalarConst (Face.mark .minus :: s) anything P := by
  unfold scalarConst
  refine (reads_kind (some .minus)).ahead (fun o _ => rfl) ?_
  rintro _ rfl
  exact h

theorem reads_plus {s : List Face} {P : Const → Prop}
    (h : Reads (signedConst "") (Face.mark .plus :: s) anything P) :
    Reads scalarConst (Face.mark .plus :: s) anything P := by
  unfold scalarConst
  refine (reads_kind (some .plus)).ahead (fun o _ => rfl) ?_
  rintro _ rfl
  exact h

theorem reads_unsigned (text : String) :
    Reads scalarConst [spellUnsigned text] (avoids [.dot] []) (· = .scalar .double text) := by
  unfold spellUnsigned
  split
  · rename_i hword
    unfold scalarConst
    refine (reads_kind (some .identifier)).ahead (fun o _ => rfl) ?_
    rintro _ rfl
    have hdotted : Face.dotted text = [Face.word text] := by
      rcases hword with rfl | rfl <;> decide
    rw [← hdotted]
    refine (reads_dottedName text).andThen fun name hname => Reads.pure ?_
    rcases hword with rfl | rfl <;> subst hname <;> rfl
  · exact (reads_numeral true text).mono (fun _ _ => trivial) fun _ h => h

theorem reads_signed (text : String) :
    Reads scalarConst [Face.mark .minus, spellUnsigned text] anything
      (· = .scalar .double ("-" ++ text)) := by
  unfold spellUnsigned
  split
  · rename_i hword
    exact reads_minus (reads_signedWord "-" _ hword)
  · exact reads_minus (reads_signedNumeral "-" _ true text)

theorem reads_double (text : String) :
    Reads scalarConst (spellDouble text) (avoids [.dot] []) (· = .scalar .double text) := by
  unfold spellDouble
  split
  · rename_i rest hminus
    refine (reads_signed (String.ofList rest)).mono (fun _ _ => trivial) fun _ h => ?_
    rw [h, minus_append_ofList hminus]
  · exact reads_unsigned text

theorem reads_integerConst (text : String) :
    Reads scalarConst (Face.number false text) anything (· = .scalar .int text) := by
  unfold Face.number
  split
  · rename_i digits hminus
    refine (reads_minus (reads_signedNumeral "-" _ false _)).imp fun _ h => ?_
    rw [h, minus_append_ofList hminus]
    rfl
  · exact reads_numeral false text

theorem reads_nameConst (text : String) :
    Reads scalarConst (Face.dotted text) (avoids [.dot] []) (· = nameConst text) := by
  unfold scalarConst
  refine (reads_kind (some .identifier)).ahead (fun o _ => by simp [head_dotted]) ?_
  rintro _ rfl
  refine (reads_dottedName text).andThen fun name hname => Reads.pure ?_
  rw [hname]

theorem reads_scalarConst (v : Const) (hv : scalarSpellable v = true) :
    Reads scalarConst (spellScalar v) afterValue (· = v) := by
  have hdot : ∀ o, afterValue o → avoids [.dot] [] o :=
    fun o ho => avoids_mono ho (by simp) (by simp)
  cases v with
  | absent => simp [scalarSpellable] at hv
  | list items => simp [scalarSpellable] at hv
  | map pairs => simp [scalarSpellable] at hv
  | scalar kind text =>
      cases kind with
      | int => exact (reads_integerConst text).mono (fun _ _ => trivial) fun _ h => h
      | double => exact (reads_double text).mono hdot fun _ h => h
      | string =>
          refine (reads_texts text []).imp fun _ h => ?_
          simpa [String.join] using h
      | bool =>
          refine (reads_nameConst text).mono hdot fun _ h => ?_
          simp only [scalarSpellable, Bool.or_eq_true, beq_iff_eq] at hv
          simpa [nameConst, hv] using h
      | identifier =>
          refine (reads_nameConst text).mono hdot fun _ h => ?_
          simp only [scalarSpellable, valueWords, List.contains_eq_mem, List.mem_cons,
            Bool.not_eq_true', decide_eq_false_iff_not, not_or] at hv
          simpa [nameConst, hv] using h
      | other name => simp [scalarSpellable] at hv

/-- A scalar starts with none of the marks that structure a value. -/
theorem head_scalar (v : Const) (hv : scalarSpellable v = true) :
    ∃ f, (spellScalar v).head? = some f ∧
      f.kind ∉ [TokenKind.curlyOpen, .squareOpen, .squareClose, .colon] := by
  have hnumber : ∀ k ∈ numberStarts,
      k ∉ [TokenKind.curlyOpen, .squareOpen, .squareClose, .colon] := by decide
  cases v with
  | absent => simp [scalarSpellable] at hv
  | list items => simp [scalarSpellable] at hv
  | map pairs => simp [scalarSpellable] at hv
  | scalar kind text =>
      cases kind with
      | int =>
          obtain ⟨f, hf, hk⟩ := head_number false text
          exact ⟨f, hf, hnumber _ hk⟩
      | double =>
          rw [spellScalar, spellDouble]
          split
          · exact ⟨Face.mark .minus, rfl, by decide⟩
          · refine ⟨_, rfl, ?_⟩
            unfold spellUnsigned
            split
            · simp
            · simp [(kind_numeral true text).2.mpr rfl]
      | string => exact ⟨Face.text text, rfl, by simp⟩
      | bool => exact ⟨_, head_dotted text, by simp⟩
      | identifier => exact ⟨_, head_dotted text, by simp⟩
      | other name => simp [scalarSpellable] at hv

/-! ## Parts of values

A value is a scalar, a list or an aggregate. Each of them is read with whatever forms
its items or fields are written in, as long as these are read. -/

/-- The entries of an option are read without their position. -/
def ReadsEntries (p : Parser (List OptionTree)) (s : List Face) (n : Option Face → Prop)
    (entries : List OptionTree) : Prop :=
  Reads p s n fun os => os.map OptionTree.erase = entries

/-- Items with commas between them, with or without one after the last. -/
def spellCommas {X : Type} (spell : X → List Face) : List X → Bool → List Face
  | [], _ => []
  | [x], comma => spell x ++ if comma then [Face.mark .comma] else []
  | x :: y :: xs, comma => spell x ++ Face.mark .comma :: spellCommas spell (y :: xs) comma

section Parts

variable {X : Type} {spell : X → List Face} {entries : X → List OptionTree} {position : Position}
  {fuel : Nat} {path : String}

theorem length_le_spellCommas_of_mem {xs : List X} {x : X} (comma : Bool) (h : x ∈ xs) :
    (spell x).length ≤ (spellCommas spell xs comma).length := by
  induction xs with
  | nil => simp at h
  | cons y ys ih =>
      rcases List.mem_cons.mp h with rfl | h
      · cases ys <;> simp [spellCommas]
      · have hle := ih h
        cases ys with
        | nil => simp at h
        | cons z ys =>
            rw [spellCommas, List.length_append, List.length_cons]
            omega

theorem length_le_spellCommas {xs : List X} (comma : Bool)
    (h : ∀ x ∈ xs, ∃ f, (spell x).head? = some f ∧ f.kind ≠ .squareClose) :
    xs.length ≤ (spellCommas spell xs comma).length := by
  induction xs with
  | nil => simp
  | cons x xs ih =>
      obtain ⟨f, hf, -⟩ := h x (by simp)
      have hpos := length_pos_of_head hf
      have hle := ih fun y hy => h y (List.mem_cons_of_mem _ hy)
      cases xs with
      | nil =>
          simp only [spellCommas, List.length_append, List.length_singleton]
          omega
      | cons y ys =>
          simp only [spellCommas, List.length_append, List.length_cons] at hle ⊢
          omega

/-- A list is read item by item; a comma after the last one ends it as well as none. -/
theorem reads_listItems {item : Parser (List OptionTree)} (xs : List X) (comma : Bool)
    (hhead : ∀ x ∈ xs, ∃ f, (spell x).head? = some f ∧ f.kind ≠ .squareClose)
    (hitem : ∀ x ∈ xs, ReadsEntries item (spell x) afterValue (entries x))
    (fuel : Nat) (hfuel : xs.length < fuel) :
    Reads (listItems item fuel) (spellCommas spell xs comma) (· = some (Face.mark .squareClose))
      fun os => os.flatten.map OptionTree.erase = xs.flatMap entries := by
  induction xs generalizing fuel with
  | nil =>
      obtain ⟨fuel, rfl⟩ : ∃ k, fuel = k + 1 := ⟨fuel - 1, by simp at hfuel; omega⟩
      rw [listItems, spellCommas]
      refine (reads_is .squareClose true).ahead (fun o ho => by simp [ho]) ?_
      rintro _ rfl
      exact Reads.pure rfl
  | cons x xs ih =>
      obtain ⟨fuel, rfl⟩ : ∃ k, fuel = k + 1 := ⟨fuel - 1, by simp at hfuel; omega⟩
      obtain ⟨f, hf, hclose⟩ := hhead x (by simp)
      have hx := hitem x (by simp)
      have hrest := ih (fun y hy => hhead y (by simp [hy])) (fun y hy => hitem y (by simp [hy]))
        fuel (by simpa using hfuel)
      rw [listItems]
      refine (reads_is .squareClose false).ahead (fun o _ => ?_) ?_
      · cases xs <;> simp [spellCommas, hf, hclose]
      rintro _ rfl
      cases xs with
      | nil =>
          rw [spellCommas]
          refine hx.bind (fun o ho => ?_) fun os hos => ?_
          · cases comma with
            | true => exact avoids_mark (by decide) (by decide)
            | false => exact ho ▸ avoids_mark (by decide) (by decide)
          cases comma with
          | true =>
              refine (reads_accept (f := Face.mark .comma) rfl).token ?_
              rintro _ rfl
              refine hrest.andThen fun more hmore => Reads.pure ?_
              simp [hos, hmore]
          | false =>
              refine reads_accept_none.ahead (fun o ho => ?_) ?_
              · exact ho ▸ avoids_mark (by decide) (by decide)
              · rintro _ rfl
                exact Reads.pure (by simp [hos])
      | cons y ys =>
          rw [spellCommas]
          refine hx.bind (fun o _ => avoids_mark (by decide) (by decide)) fun os hos => ?_
          refine (reads_accept (f := Face.mark .comma) rfl).token ?_
          rintro _ rfl
          refine hrest.andThen fun more hmore => Reads.pure ?_
          rw [List.flatten_cons, List.map_append, hos, hmore]
          rfl

theorem reads_aggregateKey (key : KeyForm) :
    Reads aggregateKey key.spelled anything (· = key.name) := by
  unfold aggregateKey
  cases key with
  | plain name =>
      refine reads_accept_none.ahead (fun o _ => avoids_word (by decide) rfl) ?_
      rintro _ rfl
      exact (reads_identifier name).token fun t ht => Reads.pure ht
  | extension name =>
      refine (reads_accept rfl).token ?_
      rintro _ rfl
      refine (reads_dottedName name).bind (fun o _ => avoids_mark (by decide) (by decide)) ?_
      rintro _ rfl
      exact (reads_expect rfl).token fun _ _ => Reads.pure rfl

theorem head_key (key : KeyForm) :
    ∃ f, key.spelled.head? = some f ∧ (f.kind = .identifier ∨ f.kind = .squareOpen) := by
  cases key with
  | plain name => exact ⟨Face.word name, rfl, Or.inl rfl⟩
  | extension name => exact ⟨Face.mark .squareOpen, rfl, Or.inr rfl⟩

def afterField : Option Face → Prop := avoids [.dot, .text, .comma, .semicolon] []

/-- A field is read with its key in front of what it holds; without a colon it holds
another aggregate. -/
theorem reads_aggregateField {value : String → Parser (List OptionTree)} (key : KeyForm)
    (colon : Bool) {s : List Face} (close : Separator) {os : List OptionTree}
    (hcolon : colon = true ∨ ∃ f, s.head? = some f ∧ f.kind = .curlyOpen)
    (hvalue : ReadsEntries (value (path ++ "." ++ key.name)) s afterValue os) :
    ReadsEntries (aggregateField value path)
      (key.spelled ++ ((if colon then [Face.mark .colon] else []) ++ (s ++ close.faces)))
      afterField os := by
  -- The value and what closes it, once the colon is settled.
  have htail : ReadsEntries (do
        let leaf ← value (path ++ "." ++ key.name)
        separator
        return leaf) (s ++ close.faces) afterField os := by
    refine hvalue.bind (fun o ho => ?_) fun leaf hleaf => ?_
    · exact avoids_or (avoids_separator close (by decide) (by decide))
        (avoids_mono ho (by decide) (by simp))
    · refine ((reads_separator close).mono (fun o ho => ?_) fun _ h => h).andThen
        fun _ _ => Reads.pure hleaf
      exact avoids_mono ho (by decide) (by simp)
  unfold ReadsEntries aggregateField
  refine (reads_aggregateKey key).bind (fun _ _ => trivial) ?_
  rintro _ rfl
  cases colon with
  | true =>
      refine (reads_accept rfl).token ?_
      rintro _ rfl
      refine (reads_look _).ahead (m := anything) (fun _ _ => trivial) fun curly _ => ?_
      refine (reads_look _).ahead (m := anything) (fun _ _ => trivial) fun angle _ => ?_
      exact htail
  | false =>
      obtain ⟨f, hhead, hcurly⟩ := hcolon.resolve_left (by simp)
      refine reads_accept_none.ahead (fun o _ => ?_) ?_
      · simp [hhead, hcurly, Face.isWord]
      rintro _ rfl
      refine (reads_is .curlyOpen true).ahead (fun o _ => by simp [hhead, hcurly]) ?_
      rintro _ rfl
      refine (reads_look _).ahead (m := anything) (fun _ _ => trivial) fun angle _ => ?_
      exact htail

theorem reads_scalarValue {s : List Face} {f : Face} {value : Const} (hhead : s.head? = some f)
    (hkind : f.kind ∉ [TokenKind.curlyOpen, .squareOpen])
    (hread : Reads scalarConst s afterValue (· = value)) :
    ReadsEntries (optionValueAux position (fuel + 1) path) s afterValue
      [{ name := path, value }] := by
  rw [optionValueAux]
  refine (reads_kind (some f.kind)).ahead (fun o _ => by simp [hhead]) ?_
  rintro _ rfl
  split
  · simp_all
  · simp_all
  · exact hread.andThen fun c hc => Reads.pure (by simp [OptionTree.erase, hc])

theorem reads_listValue (xs : List X) (comma : Bool)
    (hhead : ∀ x ∈ xs, ∃ f, (spell x).head? = some f ∧ f.kind ≠ .squareClose)
    (hitem : ∀ x ∈ xs, ReadsEntries (optionValueAux position fuel path) (spell x) afterValue
      (entries x))
    (hfuel : xs.length ≤ fuel) :
    ReadsEntries (optionValueAux position (fuel + 1) path)
      (Face.mark .squareOpen :: (spellCommas spell xs comma ++ [Face.mark .squareClose]))
      afterValue (xs.flatMap entries) := by
  rw [optionValueAux]
  refine (reads_kind (some .squareOpen)).ahead (fun o _ => rfl) ?_
  rintro _ rfl
  refine (reads_advance _).token fun _ _ => ?_
  refine (reads_listItems xs comma hhead hitem (fuel + 1) (by omega)).bind (fun o _ => rfl)
    fun leaves hleaves => ?_
  exact (reads_expect rfl).token fun _ _ => Reads.pure hleaves

theorem reads_aggregateValue (fields : List X)
    (hhead : ∀ x ∈ fields, ∃ f, (spell x).head? = some f ∧
      (f.kind = .identifier ∨ f.kind = .squareOpen))
    (hfield : ∀ x ∈ fields, ReadsEntries (aggregateField (optionValueAux position fuel) path)
      (spell x) afterField (entries x)) :
    ReadsEntries (optionValueAux position (fuel + 1) path)
      (Face.mark .curlyOpen :: (fields.flatMap spell ++ [Face.mark .curlyClose]))
      afterValue (fields.flatMap entries) := by
  rw [optionValueAux]
  refine (reads_kind (some .curlyOpen)).ahead (fun o _ => rfl) ?_
  rintro _ rfl
  refine (reads_advance _).token fun _ _ => ?_
  have hloop : Reads
      (upTo .curlyClose (aggregateField (optionValueAux position fuel) path))
      (fields.flatMap spell ++ [Face.mark .curlyClose]) anything
      fun leaves => leaves.map (List.map OptionTree.erase) = fields.map entries := by
    refine reads_upTo (m := afterField) fields (avoids_mark (by decide) (by decide)) fun x hx => ?_
    obtain ⟨f, hf, hkind⟩ := hhead x hx
    refine ⟨hfield x hx, f, hf, ?_, avoids_of_kind ?_⟩
    · rcases hkind with h | h <;> simp [h]
    · rcases hkind with h | h <;> simp [h]
  refine (hloop.mono (fun _ _ => trivial) fun _ h => h).andThen fun leaves hleaves => ?_
  exact Reads.pure (by rw [List.map_flatten, hleaves, List.flatMap_def])

end Parts

/-! ## Values -/

theorem spellValues_eq (items : List ValueForm) (comma : Bool) :
    spellValues items comma = spellCommas ValueForm.spelled items comma := by
  induction items with
  | nil => rfl
  | cons v vs ih => cases vs <;> simp [spellValues, spellCommas, ← ih]

theorem entriesOfValues_eq (items : List ValueForm) (path : String) :
    entriesOfValues items path = items.flatMap (·.entries path) := by
  induction items with
  | nil => rfl
  | cons v vs ih => simp [entriesOfValues, ih]

theorem spellable_of_mem_values {items : List ValueForm} (h : spellableValues items = true) :
    ∀ v ∈ items, v.spellable = true := by
  induction items with
  | nil => simp
  | cons v vs ih =>
      simp only [spellableValues, Bool.and_eq_true] at h
      simpa [h.1] using ih h.2

theorem spellFields_eq (fields : List AggregateField) :
    spellFields fields = fields.flatMap AggregateField.spelled := by
  induction fields with
  | nil => rfl
  | cons f fs ih => simp [spellFields, ih]

theorem entriesOfFields_eq (fields : List AggregateField) (path : String) :
    entriesOfFields fields path = fields.flatMap (·.entries path) := by
  induction fields with
  | nil => rfl
  | cons f fs ih => simp [entriesOfFields, ih]

theorem spellable_of_mem_fields {fields : List AggregateField} (h : spellableFields fields = true) :
    ∀ f ∈ fields, f.spellable = true := by
  induction fields with
  | nil => simp
  | cons f fs ih =>
      simp only [spellableFields, Bool.and_eq_true] at h
      simpa [h.1] using ih h.2

/-- A value starts with no bracket that closes a list. -/
theorem head_value (v : ValueForm) (hv : v.spellable = true) :
    ∃ f, v.spelled.head? = some f ∧ f.kind ≠ .squareClose := by
  cases v with
  | scalar value =>
      obtain ⟨f, hf, hk⟩ := head_scalar value hv
      exact ⟨f, hf, fun h => hk (by simp [h])⟩
  | texts first others => exact ⟨Face.text first, rfl, by simp⟩
  | list items comma => exact ⟨Face.mark .squareOpen, rfl, by decide⟩
  | aggregate fields => exact ⟨Face.mark .curlyOpen, rfl, by decide⟩

theorem head_aggregate {v : ValueForm} (h : v.isAggregate = true) :
    ∃ f, v.spelled.head? = some f ∧ f.kind = .curlyOpen := by
  cases v with
  | aggregate fields => exact ⟨Face.mark .curlyOpen, rfl, rfl⟩
  | _ => simp [ValueForm.isAggregate] at h

theorem reads_optionValueAux (position : Position) (fuel : Nat) (v : ValueForm) (path : String)
    (hv : v.spellable = true) (hfuel : v.spelled.length < fuel) :
    ReadsEntries (optionValueAux position fuel path) v.spelled afterValue (v.entries path) := by
  induction fuel generalizing v path with
  | zero => omega
  | succ fuel ih =>
      cases v with
      | scalar value =>
          obtain ⟨f, hf, hk⟩ := head_scalar value hv
          refine reads_scalarValue hf (fun h => hk ?_) (reads_scalarConst value hv)
          exact (by decide : [TokenKind.curlyOpen, .squareOpen] ⊆
            [TokenKind.curlyOpen, .squareOpen, .squareClose, .colon]) h
      | texts first others =>
          exact reads_scalarValue rfl (by simp) (reads_texts first others)
      | list items comma =>
          have hitems := spellable_of_mem_values hv
          have hheads := fun w hw => head_value w (hitems w hw)
          have hcount := length_le_spellCommas comma hheads
          simp only [ValueForm.spelled, spellValues_eq, List.length_cons, List.length_append]
            at hfuel ⊢
          rw [ValueForm.entries, entriesOfValues_eq]
          refine reads_listValue items comma hheads (fun w hw => ?_) (by omega)
          have hle : w.spelled.length ≤ (spellCommas ValueForm.spelled items comma).length :=
            length_le_spellCommas_of_mem comma hw
          exact ih w path (hitems w hw) (by omega)
      | aggregate fields =>
          have hfields := spellable_of_mem_fields hv
          simp only [ValueForm.spelled, List.length_cons, List.length_append, spellFields_eq]
            at hfuel ⊢
          rw [ValueForm.entries, entriesOfFields_eq]
          refine reads_aggregateValue fields ?_ ?_
          · rintro ⟨key, colon, w, close⟩ -
            obtain ⟨k, hk, hkind⟩ := head_key key
            exact ⟨k, by simp [AggregateField.spelled, hk], hkind⟩
          · rintro ⟨key, colon, w, close⟩ hf
            have hle := length_le_flatMap_of_mem AggregateField.spelled hf
            have hspell := hfields _ hf
            simp only [AggregateField.spellable, Bool.and_eq_true, Bool.or_eq_true] at hspell
            simp only [AggregateField.spelled, List.length_append] at hle
            exact reads_aggregateField key colon close (hspell.1.imp_right head_aggregate)
              (ih w _ hspell.2 (by omega))

/-- The tokens left are fuel enough for a value. -/
theorem reads_optionValue (position : Position) (v : ValueForm) (path : String)
    (hv : v.spellable = true) :
    ReadsEntries (optionValue position path) v.spelled afterValue (v.entries path) :=
  reads_fuelled (p := fun fuel => optionValueAux position fuel path)
    fun fuel => reads_optionValueAux position fuel v path hv

/-! ## Options -/

theorem reads_optionNamePart (p : NamePart) :
    Reads optionNamePart p.spelled anything (· = p.path) := by
  unfold optionNamePart
  cases p with
  | plain name =>
      refine reads_accept_none.ahead (fun o _ => avoids_word (by decide) rfl) ?_
      rintro _ rfl
      exact (reads_identifier name).token fun t ht => Reads.pure ht
  | extension rooted name =>
      refine (reads_accept rfl).token ?_
      rintro _ rfl
      have hname : Reads (dottedName >>= fun name => expect .parenClose >>= fun _ => pure name)
          (Face.dotted name ++ [Face.mark .parenClose]) anything (· = name) := by
        refine (reads_dottedName name).bind (fun o _ => avoids_mark (by decide) (by decide)) ?_
        rintro _ rfl
        exact (reads_expect rfl).token fun _ _ => Reads.pure rfl
      cases rooted with
      | true => exact (reads_accept rfl).token fun _ _ => hname
      | false =>
          refine reads_accept_none.ahead (fun o _ => ?_) fun _ _ => hname
          simp [head_dotted, Face.isWord]

/-- The name of an option, which ends where no dot goes on with it. -/
theorem reads_optionName (first : NamePart) (others : List NamePart) :
    Reads optionName (first.spelled ++ others.flatMap fun p => Face.mark .dot :: p.spelled)
      (avoids [.dot] []) (· = ".".intercalate ((first :: others).map NamePart.path)) := by
  refine (reads_sepBy1 (m := anything) (e := id) (y := NamePart.path) first others trivial
    (fun _ h => ⟨h, trivial⟩) fun p _ => reads_optionNamePart p).andThen fun parts hparts => ?_
  refine Reads.pure ?_
  rw [← List.map_id parts, hparts]

/-- An option is read with whatever form its value is written in. -/
theorem reads_optionOf (first : NamePart) (others : List NamePart) {s : List Face}
    {os : List OptionTree}
    (hvalue : ∀ position, ReadsEntries
      (optionValue position (".".intercalate ((first :: others).map NamePart.path))) s
      afterValue os) :
    ReadsEntries option
      (first.spelled ++ (others.flatMap fun p => Face.mark .dot :: p.spelled) ++
        (Face.mark .equal :: s)) afterValue os := by
  unfold option
  refine reads_here.ahead (m := anything) (fun _ _ => trivial) fun position _ => ?_
  refine (reads_optionName first others).bind (fun _ _ => avoids_mark (by decide) (by decide)) ?_
  rintro _ rfl
  exact (reads_expect rfl).token fun _ _ => hvalue position

theorem reads_option (o : OptionForm) (ho : o.spellable = true) :
    ReadsEntries option o.spelled afterValue o.entries :=
  reads_optionOf o.first o.others fun position => reads_optionValue position o.value o.path ho

/-- An option on a line of its own, in whatever form it is written. -/
theorem reads_statementOf {s : List Face} {os : List OptionTree}
    (h : ReadsEntries option s afterValue os) :
    ReadsEntries optionStatement (Face.word "option" :: (s ++ [Face.mark .semicolon])) anything
      os := by
  unfold optionStatement
  refine (reads_expectWord (by simp)).token fun _ _ => ?_
  refine h.bind (fun _ _ => avoids_mark (by decide) (by decide)) fun os hos => ?_
  exact (reads_expect rfl).token fun _ _ => Reads.pure hos

theorem reads_optionStatement (o : OptionForm) (ho : o.spellable = true) :
    ReadsEntries optionStatement (spellStatement o) anything o.entries :=
  reads_statementOf (reads_option o ho)

theorem reads_bracketOptions (os : List OptionForm) (hos : ∀ o ∈ os, o.spellable = true) :
    ReadsEntries bracketOptions (spellBrackets os) (avoids [.squareOpen] [])
      (os.flatMap OptionForm.entries) := by
  unfold bracketOptions
  cases os with
  | nil =>
      refine reads_accept_none.ahead (fun _ h => h) ?_
      rintro _ rfl
      exact Reads.pure rfl
  | cons o os =>
      refine (reads_accept rfl).token ?_
      rintro _ rfl
      refine (reads_sepBy1 (m := afterValue) (n := (· = some (Face.mark .squareClose)))
        (e := List.map OptionTree.erase) (y := OptionForm.entries) o os
        (avoids_mark (by decide) (by decide)) ?_ fun p hp => reads_option p (hos p hp)).bind
        (fun _ _ => rfl) fun entries hentries => ?_
      · rintro _ rfl
        exact ⟨avoids_mark (by decide) (by decide), avoids_mark (by decide) (by decide)⟩
      · refine (reads_expect rfl).token fun _ _ => Reads.pure ?_
        rw [List.map_flatten, hentries, List.flatMap_def]

end Proto
end ClientGen
