import ClientGen.Json.Basic
import ClientGen.Json.Reader
import ClientGen.Proofs.Number.Spelling
import Mathlib.Data.List.DropRight
import Mathlib.Data.List.Forall2

/-! # Reading JSON back

A document that was written indented reads as itself (`read?_indented`), as long as it holds no
number, whose spelling is up to the writer. What is read is described by its own text
(`Reads`): whatever follows is left, and the length of the text bounds the steps that it takes.
An integer is read as the digits that are written for it, and these denote no other integer
(`denotes_ofInt_iff`).
-/

namespace ClientGen
namespace Json

open Reader

/-! ## Strings -/

section Strings

variable {markup : Markup} {done cs rest : List Char}

/-- The characters of a string between its quotes. -/
def escaped (markup : Markup) (cs : List Char) : List Char :=
  cs.flatMap fun c => (escapeChar markup c).toList

theorem toList_spellString (markup : Markup) (s : String) :
    (spellString markup s).toList = '"' :: (escaped markup s.toList ++ ['"']) := by
  simp [spellString, escaped, List.flatMap, Function.comp_def]

theorem hex4?_append (h : 4 ≤ cs.length) (rest : List Char) :
    hex4? (cs ++ rest) = (hex4? cs).map fun read => (read.1, read.2 ++ rest) := by
  match cs, h with
  | a :: b :: c :: d :: more, _ => simp [hex4?, Option.map_bind]

/-- The characters that are written by their number. -/
def numbered : List Nat := List.range 32 ++ [0x2028, 0x2029, 38, 60, 62]

theorem hex4?_numbered : ∀ n ∈ numbered, (Text.hexPadded 4 n).toList.length = 4 ∧
    hex4? (Text.hexPadded 4 n).toList = some (n, []) ∧ n < 0xD800 := by
  decide +kernel

/-- An escaped character is read in one step. -/
theorem stringAux_escapeChar (fuel : Nat) (done : List Char) (c : Char) (rest : List Char) :
    stringAux (fuel + 1) done ((escapeChar markup c).toList ++ rest) =
      stringAux fuel (c :: done) rest := by
  have hchar : ∀ {n}, c.toNat = n → Char.ofNat n = c := fun h => h ▸ Char.ofNat_toNat c
  unfold escapeChar
  split
  · rename_i h; rw [← hchar h]; rfl
  · rename_i h; rw [← hchar h]; rfl
  · rename_i h; rw [← hchar h]; rfl
  · rename_i h; rw [← hchar h]; rfl
  · rename_i h; rw [← hchar h]; rfl
  · rename_i h; rw [← hchar h]; rfl
  · rename_i h; rw [← hchar h]; rfl
  · rename_i hquote hslash _ _ _ _ _
    split
    · rename_i hnum
      have hmem : c.toNat ∈ numbered := by
        simp [numbered] at hnum ⊢
        omega
      obtain ⟨hlength, hhex, hlt⟩ := hex4?_numbered _ hmem
      have hread : hex4? ((Text.hexPadded 4 c.toNat).toList ++ rest) = some (c.toNat, rest) := by
        rw [hex4?_append (Nat.le_of_eq hlength.symm), hhex]
        rfl
      have hunicode : unicode? ((Text.hexPadded 4 c.toNat).toList ++ rest) = some (c, rest) := by
        have hhigh : ¬ (0xD800 ≤ c.toNat ∧ c.toNat < 0xDC00) := by omega
        have hlow : ¬ (0xDC00 ≤ c.toNat ∧ c.toNat < 0xE000) := by omega
        simp [unicode?, hread, hhigh, hlow]
      simp [stringAux, hunicode]
    · rename_i hplain
      have hcontrol : ¬ c.toNat < 32 := by
        intro h
        simp [h] at hplain
      have hne : c ≠ '"' := fun h => hquote (congrArg Char.toNat h)
      have hne' : c ≠ '\\' := fun h => hslash (congrArg Char.toNat h)
      simp [stringAux, hcontrol, hne']

theorem stringAux_escaped {fuel : Nat} (h : cs.length < fuel) (done rest : List Char) :
    stringAux fuel done (escaped markup cs ++ '"' :: rest) =
      some (String.ofList (done.reverse ++ cs), rest) := by
  induction cs generalizing fuel done with
  | nil =>
      obtain ⟨n, rfl⟩ := Nat.exists_eq_add_one_of_ne_zero (Nat.ne_of_gt h)
      simp [escaped, stringAux]
  | cons c cs ih =>
      obtain ⟨n, rfl⟩ := Nat.exists_eq_add_one_of_ne_zero (Nat.ne_of_gt (Nat.zero_lt_of_lt h))
      have hcons : escaped markup (c :: cs) = (escapeChar markup c).toList ++ escaped markup cs :=
        List.flatMap_cons
      rw [hcons, List.append_assoc, stringAux_escapeChar, ih (Nat.lt_of_succ_lt_succ h)]
      simp

theorem length_le_escaped (markup : Markup) (cs : List Char) :
    cs.length ≤ (escaped markup cs).length := by
  induction cs with
  | nil => exact Nat.zero_le _
  | cons c cs ih =>
      have hcons : escaped markup (c :: cs) = (escapeChar markup c).toList ++ escaped markup cs :=
        List.flatMap_cons
      have hchar : 1 ≤ (escapeChar markup c).toList.length := by
        unfold escapeChar
        split <;> try split
        all_goals simp
      rw [hcons, List.length_append, List.length_cons]
      omega

end Strings

/-! ## Values -/

/-- A text that is read as a value, whatever comes behind it. -/
def Reads (text : List Char) (j : Json) : Prop :=
  ∀ fuel rest, text.length ≤ fuel → value? fuel (text ++ rest) = some (j, rest)

/-- A text that is read as a field, whatever comes behind it. -/
def ReadsField (text : List Char) (field : String × Json) : Prop :=
  ∃ blanks key value, text = blanks ++ '"' :: (escaped key field.1.toList ++ '"' :: ':' :: value) ∧
    (∀ c ∈ blanks, isBlank c = true) ∧ Reads value field.2

section Values

variable {markup : Markup} {cs blanks rest text close : List Char} {j : Json}
  {fuel : Nat}

theorem skip_append (h : ∀ c ∈ blanks, isBlank c = true) (cs : List Char) :
    skip (blanks ++ cs) = skip cs := by
  induction blanks with
  | nil => rfl
  | cons c blanks ih =>
      obtain ⟨hc, hblanks⟩ := List.forall_mem_cons.mp h
      rw [List.cons_append, skip, List.dropWhile_cons, if_pos hc]
      exact ih hblanks

theorem skip_cons {c : Char} (h : isBlank c = false) (cs : List Char) :
    skip (c :: cs) = c :: cs := by
  simp [skip, h]

theorem skip_skip (cs : List Char) : skip (skip cs) = skip cs :=
  List.dropWhile_idempotent isBlank cs

/-! ### One step of the reader -/

theorem value?_quote (fuel : Nat) (rest : List Char) : value? (fuel + 1) ('"' :: rest) =
    (stringAux (rest.length + 1) [] rest).map fun (s, r) => (.string s, r) := rfl

theorem value?_bracket (fuel : Nat) (rest : List Char) : value? (fuel + 1) ('[' :: rest) =
    match skip rest with
    | ']' :: after => some (.array [], after)
    | more => items? fuel [] more := rfl

theorem value?_brace (fuel : Nat) (rest : List Char) : value? (fuel + 1) ('\x7b' :: rest) =
    match skip rest with
    | '\x7d' :: after => some (.object [], after)
    | more => fields? fuel [] more := rfl

theorem value?_close (fuel : Nat) (rest : List Char) : value? (fuel + 1) (']' :: rest) = none := rfl

theorem items?_succ (fuel : Nat) (done : List Json) (cs : List Char) :
    items? (fuel + 1) done cs = (value? fuel cs).bind fun (v, rest) =>
      match skip rest with
      | ',' :: more => items? fuel (v :: done) more
      | ']' :: after => some (.array (v :: done).reverse, after)
      | _ => none := rfl

theorem fields?_quote (fuel : Nat) (done : List (String × Json)) (rest : List Char) :
    fields? (fuel + 1) done ('"' :: rest) =
      (stringAux (rest.length + 1) [] rest).bind fun (key, rest) =>
        match skip rest with
        | ':' :: more => (value? fuel more).bind fun (v, rest) =>
          match skip rest with
          | ',' :: more => fields? fuel ((key, v) :: done) more
          | '\x7d' :: after => some (.object ((key, v) :: done).reverse, after)
          | _ => none
        | _ => none := rfl

theorem value?_skip (fuel : Nat) (cs : List Char) : value? fuel (skip cs) = value? fuel cs := by
  cases fuel with
  | zero => rfl
  | succ n => rw [value?, skip_skip, value?]

theorem items?_skip (fuel : Nat) (done : List Json) (cs : List Char) :
    items? fuel done (skip cs) = items? fuel done cs := by
  cases fuel with
  | zero => rfl
  | succ n => rw [items?_succ, value?_skip, items?_succ]

theorem fields?_skip (fuel : Nat) (done : List (String × Json)) (cs : List Char) :
    fields? fuel done (skip cs) = fields? fuel done cs := by
  cases fuel with
  | zero => rfl
  | succ n => rw [fields?, skip_skip, fields?]

/-! ### Values by their own text -/

theorem Reads.blank (h : Reads text j) (hblanks : ∀ c ∈ blanks, isBlank c = true) :
    Reads (blanks ++ text) j := by
  intro fuel rest hfuel
  rw [List.length_append] at hfuel
  rw [← value?_skip, List.append_assoc, skip_append hblanks, value?_skip]
  exact h fuel rest (by omega)

theorem reads_string (markup : Markup) (s : String) :
    Reads (spellString markup s).toList (.string s) := by
  intro fuel rest hfuel
  rw [toList_spellString] at hfuel ⊢
  obtain ⟨n, rfl⟩ := Nat.exists_eq_add_one_of_ne_zero
    (Nat.ne_of_gt (Nat.lt_of_lt_of_le (Nat.zero_lt_succ _) hfuel))
  have hlength := length_le_escaped markup s.toList
  have hread : stringAux ((escaped markup s.toList ++ '"' :: rest).length + 1) []
      (escaped markup s.toList ++ '"' :: rest) = some (s, rest) := by
    rw [stringAux_escaped (by simp; omega)]
    simp
  have htext : '"' :: (escaped markup s.toList ++ ['"']) ++ rest =
      '"' :: (escaped markup s.toList ++ '"' :: rest) := by
    simp
  rw [htext, value?_quote, hread]
  rfl

theorem reads_null : Reads "null".toList .null := by
  intro fuel rest hfuel
  obtain ⟨n, rfl⟩ := Nat.exists_eq_add_one_of_ne_zero
    (Nat.ne_of_gt (Nat.lt_of_lt_of_le (by decide) hfuel))
  rfl

theorem reads_bool (b : Bool) : Reads (if b then "true" else "false").toList (.bool b) := by
  intro fuel rest hfuel
  obtain ⟨n, rfl⟩ := Nat.exists_eq_add_one_of_ne_zero
    (Nat.ne_of_gt (Nat.lt_of_lt_of_le (by cases b <;> decide) hfuel))
  cases b <;> rfl

theorem reads_emptyArray : Reads "[]".toList (.array []) := by
  intro fuel rest hfuel
  obtain ⟨n, rfl⟩ := Nat.exists_eq_add_one_of_ne_zero
    (Nat.ne_of_gt (Nat.lt_of_lt_of_le (by decide) hfuel))
  rfl

theorem reads_emptyObject : Reads "\x7b\x7d".toList (.object []) := by
  intro fuel rest hfuel
  obtain ⟨n, rfl⟩ := Nat.exists_eq_add_one_of_ne_zero
    (Nat.ne_of_gt (Nat.lt_of_lt_of_le (by decide) hfuel))
  rfl

/-- No value starts with a closing bracket. -/
theorem Reads.ne_close (h : Reads text j) (rest more : List Char) :
    skip (text ++ rest) ≠ ']' :: more := by
  intro hskip
  have hread := h (text.length + 1) rest (Nat.le_succ _)
  rw [← value?_skip, hskip, value?_close] at hread
  cases hread

theorem exists_intercalate_cons (text : List Char) (texts : List (List Char)) :
    ∃ behind, [','].intercalate (text :: texts) = text ++ behind := by
  cases texts with
  | nil => exact ⟨[], by simp⟩
  | cons text' texts => exact ⟨',' :: [','].intercalate (text' :: texts), by simp⟩

/-- The items of an array are read up to its closing bracket. -/
theorem items?_eq {texts : List (List Char)} {js : List Json} (h : List.Forall₂ Reads texts js)
    (hne : texts ≠ []) (hclose : ∀ c ∈ close, isBlank c = true) (done : List Json)
    (hfuel : ([','].intercalate texts).length < fuel) :
    items? fuel done ([','].intercalate texts ++ (close ++ ']' :: rest)) =
      some (.array (done.reverse ++ js), rest) := by
  induction h generalizing fuel done with
  | nil => exact absurd rfl hne
  | @cons text j texts js hread htexts ih =>
      obtain ⟨n, rfl⟩ := Nat.exists_eq_add_one_of_ne_zero (Nat.ne_of_gt (Nat.zero_lt_of_lt hfuel))
      cases htexts with
      | nil =>
          have hend : skip (close ++ ']' :: rest) = ']' :: rest := by
            rw [skip_append hclose, skip_cons (by decide)]
          have hvalue := hread n (close ++ ']' :: rest)
            (Nat.le_of_lt_succ (by simpa using hfuel))
          simp [items?_succ, hvalue, hend]
      | @cons text' j' texts js hread' htexts =>
          have hsplit : [','].intercalate (text :: text' :: texts) =
              text ++ ',' :: [','].intercalate (text' :: texts) := by
            simp
          rw [hsplit] at hfuel ⊢
          rw [List.length_append, List.length_cons] at hfuel
          have hvalue := hread n
            (',' :: ([','].intercalate (text' :: texts) ++ (close ++ ']' :: rest))) (by omega)
          have hcomma : ∀ cs, skip (',' :: cs) = ',' :: cs := skip_cons (by decide)
          have hmore := @ih n (by simp) (j :: done) (by omega)
          rw [List.append_assoc, List.cons_append, items?_succ, hvalue]
          simpa [hcomma] using hmore

theorem reads_array {texts : List (List Char)} {js : List Json} (h : List.Forall₂ Reads texts js)
    (hne : texts ≠ []) (hclose : ∀ c ∈ close, isBlank c = true) :
    Reads ('[' :: ([','].intercalate texts ++ (close ++ [']']))) (.array js) := by
  intro fuel rest hfuel
  simp only [List.length_cons, List.length_append] at hfuel
  obtain ⟨n, rfl⟩ := Nat.exists_eq_add_one_of_ne_zero (Nat.ne_of_gt (Nat.zero_lt_of_lt hfuel))
  have hitems : items? n [] ([','].intercalate texts ++ (close ++ ']' :: rest)) =
      some (.array js, rest) :=
    items?_eq h hne hclose [] (by omega)
  rw [← items?_skip] at hitems
  have htext : '[' :: ([','].intercalate texts ++ (close ++ [']'])) ++ rest =
      '[' :: ([','].intercalate texts ++ (close ++ ']' :: rest)) := by
    simp
  -- the array is not empty, for its first item does not start with the closing bracket
  have hopen : ∀ more, skip ([','].intercalate texts ++ (close ++ ']' :: rest)) ≠ ']' :: more := by
    cases h with
    | nil => exact absurd rfl hne
    | @cons text j texts js hread htexts =>
        obtain ⟨behind, hbehind⟩ := exists_intercalate_cons text texts
        rw [hbehind, List.append_assoc]
        exact fun more => hread.ne_close _ more
  rw [htext, value?_bracket]
  simp only
  exact hitems

/-- One field, and what is done behind it. -/
theorem fields?_step {field : String × Json} (h : ReadsField text field)
    (hfuel : text.length ≤ fuel) (done : List (String × Json)) (rest : List Char) :
    fields? (fuel + 1) done (text ++ rest) =
      match skip rest with
      | ',' :: more => fields? fuel (field :: done) more
      | '\x7d' :: after => some (.object (field :: done).reverse, after)
      | _ => none := by
  obtain ⟨blanks, key, value, rfl, hblanks, hread⟩ := h
  have htext : blanks ++ '"' :: (escaped key field.1.toList ++ '"' :: ':' :: value) ++ rest =
      blanks ++ '"' :: (escaped key field.1.toList ++ '"' :: ':' :: (value ++ rest)) := by
    simp
  have hkey :
    stringAux ((escaped key field.1.toList ++ '"' :: ':' :: (value ++ rest)).length + 1) []
      (escaped key field.1.toList ++ '"' :: ':' :: (value ++ rest)) =
        some (field.1, ':' :: (value ++ rest)) := by
    have hlength := length_le_escaped key field.1.toList
    rw [stringAux_escaped (by simp; omega)]
    simp
  have hlength : value.length ≤ fuel := by
    simp at hfuel
    omega
  have hcolon : skip (':' :: (value ++ rest)) = ':' :: (value ++ rest) := skip_cons (by decide) _
  rw [htext, ← fields?_skip, skip_append hblanks, skip_cons (by decide), fields?_quote, hkey,
    Option.bind_some]
  simp only [hcolon, hread fuel rest hlength]
  rfl

/-- The fields of an object are read up to its closing brace. -/
theorem fields?_eq {texts : List (List Char)} {fields : List (String × Json)}
    (h : List.Forall₂ ReadsField texts fields) (hne : texts ≠ [])
    (hclose : ∀ c ∈ close, isBlank c = true) (done : List (String × Json))
    (hfuel : ([','].intercalate texts).length < fuel) :
    fields? fuel done ([','].intercalate texts ++ (close ++ '\x7d' :: rest)) =
      some (.object (done.reverse ++ fields), rest) := by
  induction h generalizing fuel done with
  | nil => exact absurd rfl hne
  | @cons text field texts fields hfield htexts ih =>
      obtain ⟨n, rfl⟩ := Nat.exists_eq_add_one_of_ne_zero (Nat.ne_of_gt (Nat.zero_lt_of_lt hfuel))
      cases htexts with
      | nil =>
          have hend : skip (close ++ '\x7d' :: rest) = '\x7d' :: rest := by
            rw [skip_append hclose, skip_cons (by decide)]
          rw [List.intercalate_singleton] at hfuel ⊢
          rw [fields?_step hfield (Nat.le_of_lt_succ hfuel), hend]
          simp
      | @cons text' field' texts fields hfield' htexts =>
          have hsplit : [','].intercalate (text :: text' :: texts) =
              text ++ ',' :: [','].intercalate (text' :: texts) := by
            simp
          rw [hsplit] at hfuel ⊢
          rw [List.length_append, List.length_cons] at hfuel
          have hmore := @ih n (by simp) (field :: done) (by omega)
          rw [List.append_assoc, List.cons_append, fields?_step hfield (by omega),
            skip_cons (by decide)]
          simpa using hmore

theorem reads_object {texts : List (List Char)} {fields : List (String × Json)}
    (h : List.Forall₂ ReadsField texts fields) (hne : texts ≠ [])
    (hclose : ∀ c ∈ close, isBlank c = true) :
    Reads ('\x7b' :: ([','].intercalate texts ++ (close ++ ['\x7d']))) (.object fields) := by
  intro fuel rest hfuel
  simp only [List.length_cons, List.length_append] at hfuel
  obtain ⟨n, rfl⟩ := Nat.exists_eq_add_one_of_ne_zero (Nat.ne_of_gt (Nat.zero_lt_of_lt hfuel))
  have hfields : fields? n [] ([','].intercalate texts ++ (close ++ '\x7d' :: rest)) =
      some (.object fields, rest) :=
    fields?_eq h hne hclose [] (by omega)
  rw [← fields?_skip] at hfields
  have htext : '\x7b' :: ([','].intercalate texts ++ (close ++ ['\x7d'])) ++ rest =
      '\x7b' :: ([','].intercalate texts ++ (close ++ '\x7d' :: rest)) := by
    simp
  -- the object is not empty, for its first field starts with a quote
  have hopen :
    ∃ more, skip ([','].intercalate texts ++ (close ++ '\x7d' :: rest)) = '"' :: more := by
    cases h with
    | nil => exact absurd rfl hne
    | @cons text field texts fields hfield htexts =>
        obtain ⟨blanks, key, value, rfl, hblanks, -⟩ := hfield
        obtain ⟨behind, hbehind⟩ := exists_intercalate_cons
          (blanks ++ '"' :: (escaped key field.1.toList ++ '"' :: ':' :: value)) texts
        rw [hbehind, List.append_assoc, List.append_assoc, skip_append hblanks]
        exact ⟨_, skip_cons (by decide) _⟩
  obtain ⟨more, hmore⟩ := hopen
  rw [hmore] at hfields
  rw [htext, value?_brace]
  simp only [hmore]
  exact hfields

end Values

/-! ## Documents -/

mutual

def isNumberFree : Json → Bool
  | .number _ => false
  | .array items => itemsNumberFree items
  | .object fields => fieldsNumberFree fields
  | _ => true

def itemsNumberFree : List Json → Bool
  | [] => true
  | j :: rest => j.isNumberFree && itemsNumberFree rest

def fieldsNumberFree : List (String × Json) → Bool
  | [] => true
  | (_, j) :: rest => j.isNumberFree && fieldsNumberFree rest

end

section Documents

variable {markup : Markup} {margin indent : String}

theorem blank_append {a b : String} (ha : ∀ c ∈ a.toList, isBlank c = true)
    (hb : ∀ c ∈ b.toList, isBlank c = true) : ∀ c ∈ (a ++ b).toList, isBlank c = true := by
  rw [String.toList_append]
  exact List.forall_mem_append.mpr ⟨ha, hb⟩

theorem blank_line (h : ∀ c ∈ margin.toList, isBlank c = true) :
    ∀ c ∈ ("\n" ++ margin).toList, isBlank c = true :=
  blank_append (by simp [isBlank]) h

mutual

theorem reads_indented (hindent : ∀ c ∈ indent.toList, isBlank c = true) (j : Json)
    (h : j.isNumberFree = true) {margin : String}
    (hmargin : ∀ c ∈ margin.toList, isBlank c = true) :
    Reads ((j.layout markup).indented margin indent).toList j := by
  cases j with
  | null => exact reads_null
  | bool b => exact reads_bool b
  | number s => cases h
  | string s => exact reads_string markup s
  | array items =>
      cases items with
      | nil => exact reads_emptyArray
      | cons j rest =>
          have hitems := readsItems_indented hindent (j :: rest) h
            (blank_append hmargin hindent)
          have hread := reads_array hitems (by simp [layoutItems, Layout.indentedItems])
            (blank_line hmargin)
          simpa [layout, layoutItems, Layout.indented, String.toList_intercalate] using hread
  | object fields =>
      cases fields with
      | nil => exact reads_emptyObject
      | cons field rest =>
          have hfields := readsFields_indented hindent (field :: rest) h
            (blank_append hmargin hindent)
          have hread := reads_object hfields (by simp [layoutFields, Layout.indentedFields])
            (blank_line hmargin)
          simpa [layout, layoutFields, Layout.indented, String.toList_intercalate] using hread

theorem readsItems_indented (hindent : ∀ c ∈ indent.toList, isBlank c = true) (items : List Json)
    (h : itemsNumberFree items = true) {margin : String}
    (hmargin : ∀ c ∈ margin.toList, isBlank c = true) :
    List.Forall₂ Reads
      ((Layout.indentedItems margin indent (layoutItems markup items)).map String.toList) items := by
  cases items with
  | nil => exact .nil
  | cons j rest =>
      obtain ⟨hj, hrest⟩ := Bool.and_eq_true_iff.mp h
      refine .cons ?_ (readsItems_indented hindent rest hrest hmargin)
      rw [String.toList_append]
      exact (reads_indented hindent j hj hmargin).blank (blank_line hmargin)

theorem readsFields_indented (hindent : ∀ c ∈ indent.toList, isBlank c = true)
    (fields : List (String × Json)) (h : fieldsNumberFree fields = true) {margin : String}
    (hmargin : ∀ c ∈ margin.toList, isBlank c = true) :
    List.Forall₂ ReadsField
      ((Layout.indentedFields margin indent (layoutFields markup fields)).map String.toList)
      fields := by
  cases fields with
  | nil => exact .nil
  | cons field rest =>
      obtain ⟨key, j⟩ := field
      obtain ⟨hj, hrest⟩ := Bool.and_eq_true_iff.mp h
      have hspace : ∀ c ∈ [' '], isBlank c = true := List.forall_mem_singleton.mpr rfl
      refine .cons ⟨("\n" ++ margin).toList, markup, _, ?_, blank_line hmargin,
        (reads_indented hindent j hj hmargin).blank hspace⟩
        (readsFields_indented hindent rest hrest hmargin)
      simp [toList_spellString]

end

/-- A document without numbers that was written indented reads as itself. -/
theorem read?_indented {j : Json} (h : j.isNumberFree = true)
    (hindent : ∀ c ∈ indent.toList, isBlank c = true) :
    read? ((j.layout markup).indented "" indent ++ "\n") = some j := by
  have hnone : ∀ c ∈ "".toList, isBlank c = true := by simp
  have hlength : ((j.layout markup).indented "" indent).toList.length ≤
      2 * ((j.layout markup).indented "" indent ++ "\n").length + 2 := by
    rw [← String.length_toList, String.toList_append, List.length_append]
    omega
  have hread : value? (2 * ((j.layout markup).indented "" indent ++ "\n").length + 2)
      ((j.layout markup).indented "" indent ++ "\n").toList = some (j, ['\n']) := by
    rw [String.toList_append]
    exact reads_indented hindent j h hnone _ ['\n'] hlength
  rw [read?, hread]
  rfl

end Documents

/-! ## Integers

Which integer a JSON text denotes: the text is a number of its digits in base ten, behind a
minus sign or not.
-/

open Number (signed signedValue)

/-- The text is a JSON number, and its digits stand for `n`. -/
def Denotes (text : String) (n : Int) : Prop :=
  read? text = some (.number text) ∧ ∃ negative digits, digits ≠ [] ∧
    (∀ c ∈ digits, c.isDigit = true) ∧ text.toList = signed negative digits ∧
    n = signedValue negative (Number.positional 10 digits)

section Digits

variable {c : Char} {digits : List Char}

theorem isBlank_of_isDigit (h : c.isDigit = true) : isBlank c = false := by
  refine Bool.eq_false_iff.mpr fun hblank => ?_
  simp only [isBlank, Bool.or_eq_true, beq_iff_eq] at hblank
  rcases hblank with ((rfl | rfl) | rfl) | rfl <;> cases h

theorem digits1?_eq (hne : digits ≠ []) (hlegal : ∀ c ∈ digits, c.isDigit = true) :
    digits1? digits = some (digits, []) := by
  have htaken : digits.takeWhile Char.isDigit = digits := List.takeWhile_eq_self_iff.mpr hlegal
  have hleft : digits.dropWhile Char.isDigit = [] := List.dropWhile_eq_nil_iff.mpr hlegal
  unfold digits1?
  rw [htaken, hleft]
  cases digits with
  | nil => exact absurd rfl hne
  | cons d ds => rfl

/-- Digits are a number of JSON if they have no leading zero. -/
theorem number?_signed (negative : Bool) (hne : digits ≠ [])
    (hlegal : ∀ c ∈ digits, c.isDigit = true) (hplain : digits.head? = some '0' → digits = ['0']) :
    number? (signed negative digits) = some (String.ofList (signed negative digits), []) := by
  have hwhole := digits1?_eq hne hlegal
  obtain ⟨d, ds, rfl⟩ := List.exists_cons_of_ne_nil hne
  by_cases hzero : d = '0'
  · subst hzero
    rw [(List.cons.inj (hplain rfl)).2]
    cases negative <;> rfl
  have hdigit : d ≠ '-' := by
    rintro rfl
    cases hlegal '-' List.mem_cons_self
  cases negative with
  | true => simp [number?, signed, hzero, hwhole]
  | false => simp [number?, signed, hdigit, hzero, hwhole]

theorem ne_of_isDigit (h : c.isDigit = true) :
    c ∉ ['\x7b', '[', '"', 't', 'f', 'n', '-'] := by
  intro hlisted
  have hnone : ∀ c ∈ ['\x7b', '[', '"', 't', 'f', 'n', '-'], c.isDigit = false :=
    Source.forall_of_all (by decide)
  rw [hnone c hlisted] at h
  cases h

theorem read?_signed (negative : Bool) (hne : digits ≠ [])
    (hlegal : ∀ c ∈ digits, c.isDigit = true) (hplain : digits.head? = some '0' → digits = ['0']) :
    read? (String.ofList (signed negative digits)) =
      some (.number (String.ofList (signed negative digits))) := by
  have hnumber := number?_signed negative hne hlegal hplain
  obtain ⟨first, rest, hcons, hstart⟩ : ∃ first rest, signed negative digits = first :: rest ∧
      isBlank first = false ∧ first ∉ ['\x7b', '[', '"', 't', 'f', 'n'] := by
    obtain ⟨d, ds, rfl⟩ := List.exists_cons_of_ne_nil hne
    have hdigit := hlegal d List.mem_cons_self
    cases negative with
    | true => exact ⟨'-', d :: ds, rfl, by decide⟩
    | false =>
      have hother := ne_of_isDigit hdigit
      exact ⟨d, ds, rfl, isBlank_of_isDigit hdigit, by simp_all⟩
  rw [hcons] at hnumber ⊢
  unfold read?
  rw [String.toList_ofList]
  have hvalue : ∀ fuel, value? (fuel + 1) (first :: rest) =
      some (.number (String.ofList (first :: rest)), []) := by
    intro fuel
    rw [value?, skip_cons hstart.1]
    split
    all_goals first
      | rename_i hsame
        rw [(List.cons.inj hsame).1] at hstart
        simp at hstart
      | rw [hnumber]; rfl
  rw [hvalue]
  rfl

end Digits

theorem ofInt_eq (n : Int) :
    Text.ofInt n = String.ofList (signed (decide (n < 0)) (Nat.toDigits 10 n.natAbs)) := by
  unfold Text.ofInt Text.ofNat signed
  by_cases hnegative : n < 0
  · apply String.toList_inj.mp
    simp [hnegative]
  · simp [hnegative]

theorem denotes_ofInt (n : Int) : Denotes (Text.ofInt n) n := by
  have hne : Nat.toDigits 10 n.natAbs ≠ [] := Nat.toDigits_ne_nil
  have hlegal : ∀ c ∈ Nat.toDigits 10 n.natAbs, c.isDigit = true :=
    fun c h => Number.isDigit_of_mem_toDigits h
  have hplain : (Nat.toDigits 10 n.natAbs).head? = some '0' → Nat.toDigits 10 n.natAbs = ['0'] := by
    intro hzero
    have hnone : n.natAbs = 0 := by
      by_contra hne
      exact Number.head_toDigits_ne (Nat.pos_of_ne_zero hne) hzero
    rw [hnone]
    rfl
  refine ⟨?_, decide (n < 0), _, hne, hlegal, ?_, ?_⟩
  · rw [ofInt_eq]
    exact read?_signed _ hne hlegal hplain
  · rw [ofInt_eq, String.toList_ofList]
  · rw [Number.positional_toDigits, signedValue]
    by_cases hnegative : n < 0
    · rw [if_pos (by simpa using hnegative)]
      omega
    · rw [if_neg (by simpa using hnegative)]
      omega

/-- A text denotes at most one integer. -/
theorem Denotes.unique {text : String} {m n : Int} (h : Denotes text m) (h' : Denotes text n) :
    m = n := by
  obtain ⟨-, negative, digits, hne, hlegal, hspelled, rfl⟩ := h
  obtain ⟨-, negative', digits', hne', hlegal', hspelled', rfl⟩ := h'
  have hsame := hspelled.symm.trans hspelled'
  have hunsigned {ds es : List Char} (hne : ds ≠ []) (hlegal : ∀ c ∈ ds, c.isDigit = true) :
      ds ≠ '-' :: es := by
    rintro rfl
    cases hlegal '-' List.mem_cons_self
  cases negative <;> cases negative'
  · rw [show digits = digits' from hsame]
  · exact absurd hsame (hunsigned hne hlegal)
  · exact absurd hsame.symm (hunsigned hne' hlegal')
  · rw [(List.cons.inj hsame).2]

/-- What is written for an integer denotes this one and no other. -/
theorem denotes_ofInt_iff {m n : Int} : Denotes (Text.ofInt m) n ↔ m = n :=
  ⟨fun h => (denotes_ofInt m).unique h, fun hsame => hsame ▸ denotes_ofInt m⟩

theorem not_denotes_spellString (markup : Markup) (s : String) (n : Int) :
    ¬ Denotes (spellString markup s) n := by
  rintro ⟨-, negative, digits, hne, hlegal, hspelled, -⟩
  rw [toList_spellString] at hspelled
  obtain ⟨d, ds, rfl⟩ := List.exists_cons_of_ne_nil hne
  cases negative with
  | true => cases (List.cons.inj hspelled).1
  | false =>
    have hquote := (List.cons.inj hspelled).1
    cases hquote ▸ hlegal d List.mem_cons_self

end Json
end ClientGen
