import ClientGen.Proofs.Thrift.Spelling

/-! # Parsing undoes spelling

The parser reads every spelled Thrift file back into the tree that it spells.
Each production is read up to a limit on the face after it: optional parts are
taken greedily, so nothing that could be one of them may follow. The limits hold
because no item of the grammar starts with a mark that can continue another one.
-/

namespace ClientGen
namespace Thrift

open Source
open Source.Parser

/-! ## Separators and annotations -/

/-- The marks with which an item may go on. -/
def continuations : List TokenKind := [.dot, .equal, .parenOpen, .comma, .semicolon]

section Limits

variable {kinds : List TokenKind} {words : List String}

theorem avoids_annotations (l : Layout) (as : List Annotation) (hp : .parenOpen ∉ kinds) :
    avoids kinds words (spellAnnotations l as).head? := by
  unfold spellAnnotations
  split
  · exact avoids_none
  · exact avoids_mark hp (by decide)

/-- What may stand at the end of most declarations. -/
theorem avoids_ending (l₁ l : Layout) (as : List Annotation) (hp : .parenOpen ∉ kinds)
    (hc : .comma ∉ kinds) (hs : .semicolon ∉ kinds) :
    avoids kinds words (spellAnnotations l₁ as ++ l.separator).head? :=
  avoids_append (avoids_annotations l₁ as hp) (avoids_separator _ hc hs)

/-- A limit on all continuations is a limit on some of them. -/
theorem avoids_of_continuations {ws : List String} {o : Option Face}
    (h : avoids continuations ws o) (hk : ∀ k ∈ kinds, k ∈ continuations)
    (hw : ∀ w ∈ words, w ∈ ws) : avoids kinds words o :=
  avoids_mono h hk hw

end Limits

/-- The separator that closes an item. -/
theorem reads_close (l : Layout) :
    Reads separator l.separator (avoids continuations []) fun _ => True :=
  (reads_separator _).mono (fun _ ho => avoids_of_continuations ho (by decide) (by simp))
    fun _ h => h

/-- A part that stops at a separator where an item may end. -/
theorem avoids_close {kinds : List TokenKind} (l : Layout)
    (hkinds : ∀ k ∈ kinds, k ∈ [.dot, .equal, .parenOpen]) {o : Option Face}
    (ho : avoids continuations [] o) : avoids kinds [] (l.separator.head?.or o) := by
  have hcomma : .comma ∉ kinds := fun h => absurd (hkinds _ h) (by decide)
  have hsemicolon : .semicolon ∉ kinds := fun h => absurd (hkinds _ h) (by decide)
  have hgoes : ∀ k ∈ [TokenKind.dot, .equal, .parenOpen], k ∈ continuations := by decide
  exact avoids_or (avoids_separator _ hcomma hsemicolon)
    (avoids_of_continuations ho (fun k hk => hgoes k (hkinds k hk)) (by simp))

/-- The last part of an item, its separator, and what is done then. -/
theorem reads_closed {α β : Type} {p : Parser α} {g : α → Parser β} {s : List Face}
    {kinds : List TokenKind} {P : α → Prop} {Q : β → Prop} (l : Layout)
    (hp : Reads p s (avoids kinds []) P) (hkinds : ∀ k ∈ kinds, k ∈ [.dot, .equal, .parenOpen])
    (hg : ∀ a, P a → Reads (g a) [] (avoids continuations []) Q) :
    Reads (p >>= fun a => separator >>= fun _ => g a) (s ++ l.separator)
      (avoids continuations []) Q := by
  refine hp.bind (fun o ho => avoids_close l hkinds ho) fun a ha => ?_
  exact (reads_close l).andThen fun _ _ => hg a ha

theorem reads_annotationValue (value : String) :
    Reads annotationValue (if value = "" then [] else [Face.mark .equal, Face.text value])
      (avoids [.equal] []) (· = value) := by
  unfold annotationValue
  by_cases hempty : value = ""
  · rw [if_pos hempty]
    refine reads_accept_none.ahead (fun o ho => ho) ?_
    rintro _ rfl
    exact Reads.pure hempty.symm
  · rw [if_neg hempty]
    refine (reads_accept rfl).token ?_
    rintro _ rfl
    refine (reads_expectOf (by simp)).token fun v hv => ?_
    exact Reads.pure (congrArg Face.value hv)

theorem reads_annotation (l : Layout) (a : Annotation) :
    Reads annotation (annotationFaces l a) (avoids continuations [])
      fun b => annotationErased b = annotationErased a := by
  unfold annotation annotationFaces
  refine reads_here.ahead (m := anything) (fun _ _ => trivial) fun position _ => ?_
  refine (reads_dottedName a.key).bind ?_ fun key hkey => ?_
  · intro o ho
    refine avoids_or (avoids_append ?_ (avoids_separator _ (by decide) (by decide)))
      (avoids_of_continuations ho (by decide) (by simp))
    split
    · exact avoids_none
    · exact avoids_mark (by decide) (by decide)
  · subst hkey
    refine reads_closed l (reads_annotationValue a.value) (by decide) fun value hv => ?_
    subst hv
    exact Reads.pure rfl

/-- Items of a list with their layouts, up to a closing mark. -/
theorem reads_upTo_spread {α γ X : Type} {item : Parser α} {spell : Layout → X → List Face}
    {e : α → γ} {y : X → γ} {close : TokenKind} {m : Option Face → Prop} (l : Layout)
    (xs : List X) (hclose : m (some (Face.mark close)))
    (hitem : ∀ u ∈ l.along xs, Reads item (spell u.1 u.2) m fun a => e a = y u.2)
    (hstart : ∀ u ∈ l.along xs, ∃ f, (spell u.1 u.2).head? = some f ∧ f.kind ≠ close ∧
      m (some f)) :
    Reads (upTo close item) (l.spread spell xs ++ [Face.mark close]) anything
      fun as => as.map e = xs.map y := by
  have hread : Reads (upTo close item)
      ((l.along xs).flatMap (fun u => spell u.1 u.2) ++ [Face.mark close]) anything
      fun as => as.map e = (l.along xs).map fun u => y u.2 := by
    refine reads_upTo (l.along xs) hclose fun u hu => ?_
    obtain ⟨f, hf, hk, hm⟩ := hstart u hu
    exact ⟨hitem u hu, f, hf, by simpa using hk, hm⟩
  rwa [Layout.map_along] at hread

theorem reads_annotations (l : Layout) (as : List Annotation) :
    Reads annotations (spellAnnotations l as) (avoids [.parenOpen] [])
      fun bs => bs.map annotationErased = as.map annotationErased := by
  unfold annotations spellAnnotations
  cases has : as.isEmpty with
  | true =>
      have hnil : as = [] := by simpa using has
      subst hnil
      refine reads_accept_none.ahead (fun o ho => ho) ?_
      rintro _ rfl
      exact Reads.pure rfl
  | false =>
      refine (reads_accept rfl).token ?_
      rintro _ rfl
      refine (reads_upTo_spread l as (avoids_mark (by decide) (by decide))
        (fun u _ => reads_annotation u.1 u.2) ?_).mono (fun _ _ => trivial) fun _ h => h
      intro u _
      refine ⟨Face.word (firstComponent u.2.key), ?_, by simp, ?_⟩
      · simp [annotationFaces, head_dotted]
      · exact avoids_word (by decide) rfl

/-- The common end of the declarations: annotations, a separator, and the
registration of what was read. -/
theorem reads_ending {α : Type} {mk : List Annotation → Nat → α} {P : α → Prop} (l₁ l : Layout)
    (as : List Annotation) (first : Nat)
    (h : ∀ bs decl, bs.map annotationErased = as.map annotationErased → P (mk bs decl)) :
    Reads
      (do let bs ← annotations
          separator
          let decl ← declare first
          return mk bs decl)
      (spellAnnotations l₁ as ++ l.separator) (avoids continuations []) P := by
  refine reads_closed l (reads_annotations l₁ as) (by decide) fun bs hbs => ?_
  exact (reads_declare first).andThen fun decl _ => Reads.pure (h bs decl hbs)

/-! ## Types -/

theorem reads_foreignType : Reads foreignType [] (avoids [] ["cpp_type"]) fun _ => True := by
  unfold foreignType
  refine reads_acceptWord_none.ahead (fun o ho => ho) ?_
  rintro _ rfl
  exact Reads.pure trivial

/-- The first face of a type is a word, and none of those with another meaning
unless it opens a container. -/
theorem head_type (t : TypeTree) (l : Layout) (ht : t.plain = true) :
    ∃ w, (t.spelled l).head? = some (Face.word w) ∧
      (w ∈ ["list", "set", "map"] ∨ w ∉ typeWords) := by
  cases t with
  | name p n as =>
      refine ⟨firstComponent n, by simp [TypeTree.spelled, head_dotted], Or.inr ?_⟩
      simpa [TypeTree.plain] using ht
  | list p e as => exact ⟨"list", rfl, by simp⟩
  | set p e as => exact ⟨"set", rfl, by simp⟩
  | map p k v as => exact ⟨"map", rfl, by simp⟩

theorem reads_typeAnnotations (l : Layout) (as : List Annotation) :
    Reads annotations (spellAnnotations l as) (avoids [.dot, .parenOpen] [])
      fun bs => bs.map annotationErased = as.map annotationErased :=
  (reads_annotations l as).mono (fun _ ho => avoids_mono ho (by simp) (by simp)) fun _ h => h

/-- A container of one type, from its word on. -/
theorem reads_container {p : Parser TypeTree} {mk : TypeTree → List Annotation → TypeTree}
    {Q : TypeTree → Prop} (word : String) {e : TypeTree} (l : Layout) (as : List Annotation)
    (he : Reads p (e.spelled (l.part 1)) (avoids [.dot, .parenOpen] []) (·.erase = e.erase))
    (hmk : ∀ e' bs, e'.erase = e.erase → bs.map annotationErased = as.map annotationErased →
      Q (mk e' bs)) :
    Reads
      (do advance
          foreignType
          let _ ← expect .angleOpen
          let element ← p
          let _ ← expect .angleClose
          return mk element (← annotations))
      (Face.word word :: Face.mark .angleOpen ::
        (e.spelled (l.part 1) ++ Face.mark .angleClose :: spellAnnotations (l.part 0) as))
      (avoids [.dot, .parenOpen] []) Q := by
  refine (reads_advance _).token fun _ _ => ?_
  refine reads_foreignType.ahead (fun o _ => avoids_mark (by simp) (by decide)) fun _ _ => ?_
  refine (reads_expect rfl).token fun _ _ => ?_
  refine he.bind ?_ fun element he => ?_
  · exact fun o _ => avoids_mark (by decide) (by decide)
  refine (reads_expect rfl).token fun _ _ => ?_
  exact (reads_typeAnnotations _ as).andThen fun bs hbs => Reads.pure (hmk element bs he hbs)

/-- A type stops before a dot or a parenthesis only if it has no more to come. -/
theorem reads_fieldType (fuel : Nat) (t : TypeTree) (l : Layout) (ht : t.plain = true)
    (hfuel : (t.spelled l).length < fuel) :
    Reads (fieldType fuel) (t.spelled l) (avoids [.dot, .parenOpen] []) (·.erase = t.erase) := by
  induction fuel generalizing t l with
  | zero => omega
  | succ fuel ih =>
      rw [fieldType]
      refine reads_here.ahead (m := anything) (fun _ _ => trivial) fun position _ => ?_
      cases t with
      | name p n as =>
          have hhead : ((TypeTree.name p n as).spelled l).head? =
              some (Face.word (firstComponent n)) := by
            simp [TypeTree.spelled, head_dotted]
          have hn : firstComponent n ∉ typeWords := by simpa [TypeTree.plain] using ht
          simp only [typeWords, List.mem_cons, not_or] at hn
          refine Reads.askWord false hhead (by simp [hn.2.2.1]) ?_
          refine Reads.askWord false hhead (by simp [hn.1]) ?_
          refine Reads.askWord false hhead (by simp [hn.2.1]) ?_
          refine (reads_dottedName n).bind ?_ fun name hname => ?_
          · exact fun o ho => avoids_or (avoids_annotations _ as (by decide))
              (avoids_mono ho (by simp) (by simp))
          · subst hname
            refine (reads_typeAnnotations _ as).andThen fun bs hbs => Reads.pure ?_
            simp [TypeTree.erase, hbs]
      | list p e as =>
          simp only [TypeTree.spelled, List.length_cons, List.length_append] at hfuel
          refine Reads.askWord false rfl rfl ?_
          refine Reads.askWord true rfl rfl ?_
          refine reads_container _ l as (ih e (l.part 1) ht (by omega)) fun e' bs he hbs => ?_
          simp [TypeTree.erase, he, hbs]
      | set p e as =>
          simp only [TypeTree.spelled, List.length_cons, List.length_append] at hfuel
          refine Reads.askWord false rfl rfl ?_
          refine Reads.askWord false rfl rfl ?_
          refine Reads.askWord true rfl rfl ?_
          refine reads_container _ l as (ih e (l.part 1) ht (by omega)) fun e' bs he hbs => ?_
          simp [TypeTree.erase, he, hbs]
      | map p k v as =>
          simp only [TypeTree.spelled, List.length_cons, List.length_append] at hfuel
          simp only [TypeTree.plain, Bool.and_eq_true] at ht
          refine Reads.askWord true rfl rfl ?_
          refine (reads_advance _).token fun _ _ => ?_
          refine reads_foreignType.ahead (fun o _ => avoids_mark (by simp) (by decide)) fun _ _ => ?_
          refine (reads_expect rfl).token fun _ _ => ?_
          refine (ih k (l.part 1) ht.1 (by omega)).bind ?_ fun key hkey => ?_
          · exact fun o _ => avoids_mark (by decide) (by decide)
          refine (reads_expect rfl).token fun _ _ => ?_
          refine (ih v (l.part 2) ht.2 (by omega)).bind ?_ fun value hvalue => ?_
          · exact fun o _ => avoids_mark (by decide) (by decide)
          refine (reads_expect rfl).token fun _ _ => ?_
          refine (reads_typeAnnotations _ as).andThen fun bs hbs => Reads.pure ?_
          simp [TypeTree.erase, hkey, hvalue, hbs]

/-- The tokens left are fuel enough for a type. -/
theorem reads_type (t : TypeTree) (l : Layout) (ht : t.plain = true) :
    Reads type (t.spelled l) (avoids [.dot, .parenOpen] []) (·.erase = t.erase) :=
  reads_fuelled fun fuel => reads_fieldType fuel t l ht

/-! ## Constants -/

theorem spellItems_eq (items : List Const) (l : Layout) :
    spellItems items l = l.spread (fun l x => spellConst x (l.part 0) ++ l.separator) items := by
  induction items generalizing l with
  | nil => rfl
  | cons x xs ih => simp [spellItems, ih, Layout.spread, Layout.along]

theorem spellPairs_eq (pairs : List (Const × Const)) (l : Layout) :
    spellPairs pairs l = l.spread (fun l p => spellPair p l) pairs := by
  induction pairs generalizing l with
  | nil => rfl
  | cons p ps ih => simp [spellPairs, ih, Layout.spread, Layout.along]

theorem spellable_of_mem_items {items : List Const} (h : spellableItems items = true) :
    ∀ x ∈ items, spellable x = true := by
  induction items with
  | nil => simp
  | cons x xs ih =>
      simp only [spellableItems, Bool.and_eq_true] at h
      simpa [h.1] using ih h.2

theorem spellable_of_mem_pairs {pairs : List (Const × Const)} (h : spellablePairs pairs = true) :
    ∀ p ∈ pairs, spellable p.1 = true ∧ spellable p.2 = true := by
  induction pairs with
  | nil => simp
  | cons p ps ih =>
      obtain ⟨k, v⟩ := p
      simp only [spellablePairs, spellablePair, Bool.and_eq_true] at h
      simpa [h.1] using ih h.2

/-- A constant starts with none of the marks that can follow one. -/
theorem head_const (v : Const) (l : Layout) (hv : spellable v = true) :
    ∃ f, (spellConst v l).head? = some f ∧
      f.kind ∉ .colon :: .squareClose :: .curlyClose :: continuations := by
  cases v with
  | absent => simp [spellable] at hv
  | scalar kind text =>
      have hnumber : ∀ k ∈ numberStarts,
          k ∉ TokenKind.colon :: .squareClose :: .curlyClose :: continuations := by decide
      cases kind with
      | int =>
          obtain ⟨f, hf, hk⟩ := head_number false text
          exact ⟨f, hf, hnumber _ hk⟩
      | double =>
          obtain ⟨f, hf, hk⟩ := head_number true text
          exact ⟨f, hf, hnumber _ hk⟩
      | string => exact ⟨Face.text text, rfl, by simp [continuations]⟩
      | bool => exact ⟨_, head_dotted text, by simp [continuations]⟩
      | identifier => exact ⟨_, head_dotted text, by simp [continuations]⟩
      | other name => simp [spellable] at hv
  | list items => exact ⟨Face.mark .squareOpen, rfl, by decide⟩
  | map pairs => exact ⟨Face.mark .curlyOpen, rfl, by decide⟩

/-- A constant may follow another one, and does not close what holds it. -/
theorem start_const (close : TokenKind) (hclose : close ∈ [.squareClose, .curlyClose]) {v : Const}
    (l : Layout) (hv : spellable v = true) :
    ∃ f, (spellConst v l).head? = some f ∧ f.kind ≠ close ∧ avoids continuations [] (some f) := by
  obtain ⟨f, hf, hkind⟩ := head_const v l hv
  simp only [List.mem_cons, not_or] at hkind
  obtain ⟨-, hsquare, hcurly, hgoes⟩ := hkind
  refine ⟨f, hf, ?_, avoids_of_kind hgoes⟩
  intro h
  subst h
  simp [hsquare, hcurly] at hclose

theorem reads_numberConst (fuel : Nat) (float : Bool) (text : String) :
    Reads (constValue (fuel + 1)) (Face.number float text) anything
      (· = .scalar (if float then .double else .int) text) := by
  rw [constValue]
  unfold Face.number
  split
  · rename_i digits hminus
    refine (reads_kind (some .minus)).ahead (fun o _ => by simp) ?_
    rintro _ rfl
    refine (reads_advance _).token fun _ _ => ?_
    refine (reads_expectOf (kind_numeral float _).1).token fun t ht => Reads.pure ?_
    rw [ofNumber_numeral "-" ht, minus_append_ofList hminus]
  · have hread : Reads (expectOf [.integerDecimal, .integerHex, .floatDecimal] >>= fun t =>
        (pure (Const.ofNumber "" t) : Parser Const)) [Face.numeral float text] anything
        (· = .scalar (if float then .double else .int) text) := by
      refine (reads_expectOf (kind_numeral float text).1).token fun t ht => Reads.pure ?_
      rw [ofNumber_numeral "" ht, String.empty_append]
    refine (reads_kind (some (Face.numeral float text).kind)).ahead (fun o _ => by simp) ?_
    rintro _ rfl
    have hkind := (kind_numeral float text).1
    simp only [List.mem_cons, List.not_mem_nil, or_false] at hkind
    rcases hkind with h | h | h
    · rw [h]
      exact hread
    · rw [h]
      exact hread
    · rw [h]
      exact hread

theorem nameConst_of_spellable {text : String} :
    (spellable (.scalar .bool text) = true → nameConst text = .scalar .bool text) ∧
      (spellable (.scalar .identifier text) = true →
        nameConst text = .scalar .identifier text) := by
  constructor
  · intro h
    simp only [spellable, Bool.or_eq_true, beq_iff_eq] at h
    simp [nameConst, h]
  · intro h
    simp only [spellable, Bool.and_eq_true, bne_iff_ne] at h
    simp [nameConst, h]

theorem reads_wordConst (fuel : Nat) (text : String) :
    Reads (constValue (fuel + 1)) (Face.dotted text) (avoids [.dot] []) (· = nameConst text) := by
  rw [constValue]
  refine (reads_kind (some .identifier)).ahead (fun o _ => by simp [head_dotted]) ?_
  rintro _ rfl
  refine (reads_dottedName text).andThen fun name hname => Reads.pure ?_
  rw [hname]

theorem reads_constValue (fuel : Nat) (v : Const) (l : Layout) (hv : spellable v = true)
    (hfuel : (spellConst v l).length < fuel) :
    Reads (constValue fuel) (spellConst v l) (avoids [.dot] []) (· = v) := by
  induction fuel generalizing v l with
  | zero => omega
  | succ fuel ih =>
      cases v with
      | absent => simp [spellable] at hv
      | scalar kind text =>
          cases kind with
          | int => exact (reads_numberConst fuel false text).mono (fun _ _ => trivial) fun _ h => h
          | double => exact (reads_numberConst fuel true text).mono (fun _ _ => trivial) fun _ h => h
          | string =>
              rw [constValue]
              refine (reads_kind (some .text)).ahead (fun o _ => by simp [spellConst]) ?_
              rintro _ rfl
              refine (reads_text text).token fun t ht => Reads.pure ?_
              rw [ht]
          | bool =>
              exact (reads_wordConst fuel text).imp fun _ h => h.trans (nameConst_of_spellable.1 hv)
          | identifier =>
              exact (reads_wordConst fuel text).imp fun _ h => h.trans (nameConst_of_spellable.2 hv)
          | other name => simp [spellable] at hv
      | list items =>
          simp only [spellConst, List.length_cons, List.length_append] at hfuel
          rw [constValue, spellConst]
          rw [spellItems_eq] at hfuel ⊢
          refine (reads_kind (some .squareOpen)).ahead (fun o _ => by simp) ?_
          rintro _ rfl
          refine (reads_advance _).token fun _ _ => ?_
          refine ((reads_upTo_spread (e := id) (y := id) (m := avoids continuations []) l items
            (avoids_mark (by decide) (by decide)) ?_ ?_).mono (fun _ _ => trivial)
            fun _ h => h).andThen fun xs hxs => Reads.pure (by simpa using hxs)
          · intro u hu
            have hlen := Layout.length_le_spread
              (fun l x => spellConst x (l.part 0) ++ l.separator) hu
            have hx := spellable_of_mem_items hv u.2 (Layout.mem_of_mem_along hu)
            simp only [List.length_append] at hlen
            exact reads_closed u.1 (ih u.2 (u.1.part 0) hx (by omega)) (by decide)
              fun x hx => Reads.pure hx
          · intro u hu
            have hx := spellable_of_mem_items hv u.2 (Layout.mem_of_mem_along hu)
            obtain ⟨f, hf, hstart⟩ := start_const .squareClose (by decide) (u.1.part 0) hx
            exact ⟨f, by simp [hf], hstart⟩
      | map pairs =>
          simp only [spellConst, List.length_cons, List.length_append] at hfuel
          rw [constValue, spellConst]
          rw [spellPairs_eq] at hfuel ⊢
          refine (reads_kind (some .curlyOpen)).ahead (fun o _ => by simp) ?_
          rintro _ rfl
          refine (reads_advance _).token fun _ _ => ?_
          refine ((reads_upTo_spread (e := id) (y := id) (m := avoids continuations []) l pairs
            (avoids_mark (by decide) (by decide)) ?_ ?_).mono (fun _ _ => trivial)
            fun _ h => h).andThen fun xs hxs => Reads.pure (by simpa using hxs)
          · rintro ⟨l', k, w⟩ hu
            have hlen := Layout.length_le_spread (fun l p => spellPair p l) hu
            obtain ⟨hk, hw⟩ := spellable_of_mem_pairs hv (k, w) (Layout.mem_of_mem_along hu)
            simp only [spellPair, List.length_append, List.length_cons] at hlen ⊢
            refine (ih k (l'.part 0) hk (by omega)).bind ?_ fun key hkey => ?_
            · exact fun o _ => avoids_mark (by decide) (by decide)
            refine (reads_expect rfl).token fun _ _ => ?_
            exact reads_closed l' (ih w (l'.part 1) hw (by omega)) (by decide)
              fun value hvalue => Reads.pure (by simp [hkey, hvalue])
          · rintro ⟨l', k, w⟩ hu
            obtain ⟨hk, -⟩ := spellable_of_mem_pairs hv (k, w) (Layout.mem_of_mem_along hu)
            obtain ⟨f, hf, hstart⟩ := start_const .curlyClose (by decide) (l'.part 0) hk
            exact ⟨f, by simp [spellPair, hf], hstart⟩

/-- The tokens left are fuel enough for a constant. -/
theorem reads_const (v : Const) (l : Layout) (hv : spellable v = true) :
    Reads const (spellConst v l) (avoids [.dot] []) (· = v) :=
  reads_fuelled fun fuel => reads_constValue fuel v l hv

/-! ## Fields -/

theorem reads_fieldId {id : Option Int} (hid : ∀ n ∈ id, InRange n) :
    Reads fieldId (spellId id) (avoids numberStarts []) (· = id) := by
  unfold fieldId
  have hlook : ∀ c : Cursor, (c.is .integerDecimal || c.is .integerHex || c.is .minus) =
      c.faces.head?.any fun f =>
        f.kind == .integerDecimal || f.kind == .integerHex || f.kind == .minus := by
    intro c
    simp only [Cursor.is_eq]
    cases c.faces.head? <;> simp
  cases id with
  | none =>
      refine (reads_look_head hlook false).ahead (fun o ho => ?_) ?_
      · cases o with
        | none => rfl
        | some f =>
            have hk := (avoids_some.mp ho).1
            simp only [numberStarts, List.mem_cons, not_or] at hk
            simp [spellId, hk]
      · rintro _ rfl
        exact Reads.pure rfl
  | some n =>
      obtain ⟨f, hf, hk⟩ := head_integer n
      refine (reads_look_head hlook true).ahead (fun o _ => ?_) ?_
      · rcases hk with hk | hk <;> simp [spellId, hf, hk]
      · rintro _ rfl
        refine (reads_integer (hid n rfl)).bind (fun _ _ => trivial) fun k hk => ?_
        refine (reads_expect rfl).token fun _ _ => Reads.pure ?_
        rw [hk]

theorem reads_requirement (r : Requirement) :
    Reads requirement r.spelled (avoids [] ["required", "optional"]) (· = r) := by
  unfold requirement
  cases r with
  | none =>
      refine reads_acceptWord_none.ahead (fun o ho => ho) ?_
      rintro _ rfl
      exact Reads.pure rfl
  | required =>
      refine (reads_acceptWord rfl).token ?_
      rintro _ rfl
      exact Reads.pure rfl
  | optional =>
      refine (reads_acceptWord rfl).token ?_
      rintro _ rfl
      exact Reads.pure rfl

theorem reads_fieldDefault {v : Const} (l : Layout)
    (hv : (match v with | .absent => true | v => spellable v) = true) :
    Reads fieldDefault (spellDefault l v) (avoids [.dot, .equal] []) (· = v) := by
  unfold fieldDefault
  have hwritten : ∀ v : Const, spellable v = true → Reads
      (do if ← accept .equal then const else return .absent)
      (Face.mark .equal :: spellConst v l) (avoids [.dot, .equal] []) (· = v) := by
    intro v hv
    refine (reads_accept rfl).token ?_
    rintro _ rfl
    exact (reads_const v l hv).mono (fun o ho => avoids_mono ho (by simp) (by simp)) fun _ h => h
  cases v with
  | absent =>
      refine reads_accept_none.ahead (fun o ho => avoids_mono ho (by simp) (by simp)) ?_
      rintro _ rfl
      exact Reads.pure rfl
  | scalar kind text => exact hwritten _ hv
  | list items => exact hwritten _ hv
  | map pairs => exact hwritten _ hv

/-- A type starts with a word that has no other meaning in front of it. -/
theorem avoids_type {kinds : List TokenKind} {words : List String} (t : TypeTree) (l : Layout)
    (ht : t.plain = true) (hk : .identifier ∉ kinds) (hw : ∀ w ∈ words, w ∈ typeWords)
    (hc : ∀ w ∈ ["list", "set", "map"], w ∉ words) (o : Option Face) :
    avoids kinds words ((t.spelled l).head?.or o) := by
  obtain ⟨w, hhead, hcase⟩ := head_type t l ht
  rw [hhead]
  refine avoids_word hk ?_
  rw [List.contains_eq_mem, decide_eq_false_iff_not]
  rcases hcase with hcase | hcase
  · exact hc w hcase
  · exact fun hm => hcase (hw w hm)

theorem reads_field (f : FieldTree) (l : Layout) (hf : f.spellable = true) :
    Reads field (f.spelled l) (avoids continuations []) (·.erase = f.erase) := by
  simp only [FieldTree.spellable, Bool.and_eq_true, decide_eq_true_eq] at hf
  obtain ⟨⟨hid, htype⟩, hdefault⟩ := hf
  unfold field FieldTree.spelled
  refine reads_place.ahead (m := anything) (fun _ _ => trivial) fun first _ => ?_
  refine reads_here.ahead (m := anything) (fun _ _ => trivial) fun position _ => ?_
  refine (reads_fieldId hid).bind ?_ fun id hid => ?_
  · intro o _
    rw [List.head?_append, Option.or_assoc]
    refine avoids_or ?_ ?_
    · cases f.requirement with
      | none => exact avoids_none
      | required => exact avoids_word (by decide) rfl
      | optional => exact avoids_word (by decide) rfl
    · rw [List.head?_append, Option.or_assoc]
      exact avoids_type f.type _ htype (by decide) (by simp) (by simp) _
  refine (reads_requirement f.requirement).bind ?_ fun requirement hreq => ?_
  · intro o _
    rw [List.head?_append, Option.or_assoc]
    exact avoids_type f.type _ htype (by simp) (by decide) (by decide) _
  refine (reads_type f.type (l.part 0) htype).bind ?_ fun type ht => ?_
  · exact fun o _ => avoids_word (by decide) rfl
  refine (reads_identifier f.name).token fun name hname => ?_
  refine (reads_fieldDefault (l.part 1) hdefault).bind ?_ fun default hd => ?_
  · exact fun o ho => avoids_or (avoids_ending _ l _ (by decide) (by decide) (by decide))
      (avoids_of_continuations ho (by decide) (by simp))
  refine reads_ending _ l f.annotations first fun bs decl hbs => ?_
  simp [FieldTree.erase, hid, hreq, ht, hname, hd, hbs]

/-- A field starts with its number, with a word in front of it or with its type. -/
theorem head_field (f : FieldTree) (l : Layout) (hf : f.spellable = true) :
    ∃ g, (f.spelled l).head? = some g ∧ g.kind ∈ [.minus, .integerDecimal, .identifier] := by
  simp only [FieldTree.spellable, Bool.and_eq_true] at hf
  obtain ⟨w, hw, -⟩ := head_type f.type (l.part 0) hf.1.2
  unfold FieldTree.spelled
  cases f.id with
  | some n =>
      obtain ⟨g, hg, hk⟩ := head_integer n
      refine ⟨g, by simp [spellId, hg], ?_⟩
      rcases hk with hk | hk <;> simp [hk]
  | none =>
      cases f.requirement with
      | none => exact ⟨Face.word w, by simp [spellId, Requirement.spelled, hw], by simp⟩
      | required => exact ⟨Face.word "required", rfl, by simp⟩
      | optional => exact ⟨Face.word "optional", rfl, by simp⟩

/-- Fields up to a closing mark. -/
theorem reads_fields {close : TokenKind} (l : Layout) (fs : List FieldTree)
    (hclose : close ∉ .minus :: .integerDecimal :: .identifier :: continuations)
    (hfs : fs.all FieldTree.spellable = true) :
    Reads (upTo close field) (l.spread FieldTree.spelled fs ++ [Face.mark close]) anything
      fun gs => gs.map FieldTree.erase = fs.map FieldTree.erase := by
  rw [List.all_eq_true] at hfs
  simp only [List.mem_cons, not_or] at hclose
  refine reads_upTo_spread (m := avoids continuations []) (y := FieldTree.erase) l fs
    (avoids_mark hclose.2.2.2 hclose.2.2.1) ?_ ?_
  · intro u hu
    exact reads_field u.2 u.1 (hfs _ (Layout.mem_of_mem_along hu))
  · intro u hu
    obtain ⟨g, hg, hk⟩ := head_field u.2 u.1 (hfs _ (Layout.mem_of_mem_along hu))
    refine ⟨g, hg, ?_, avoids_of_kind ?_⟩
    · rintro rfl
      simp only [List.mem_cons, List.not_mem_nil, or_false] at hk
      rcases hk with hk | hk | hk
      · exact hclose.1 hk
      · exact hclose.2.1 hk
      · exact hclose.2.2.1 hk
    · have hstart : ∀ k ∈ [TokenKind.minus, .integerDecimal, .identifier],
          k ∉ continuations := by decide
      exact hstart _ hk

theorem reads_fieldList (l : Layout) (fs : List FieldTree)
    (hfs : fs.all FieldTree.spellable = true) :
    Reads fieldList (spellFieldList l fs) anything
      fun gs => gs.map FieldTree.erase = fs.map FieldTree.erase :=
  (reads_expect rfl).token fun _ _ => reads_fields l fs (by decide) hfs

/-! ## Declarations -/

theorem reads_constDefinition (c : ConstTree) (l : Layout)
    (hc : (Definition.const c).spellable = true) :
    Reads constDefinition (c.spelled l) (avoids continuations [])
      fun d => (Definition.const d).erase = (Definition.const c).erase := by
  simp only [Definition.spellable, Bool.and_eq_true] at hc
  unfold constDefinition ConstTree.spelled
  refine reads_place.ahead (m := anything) (fun _ _ => trivial) fun first _ => ?_
  refine (reads_expectWord (by simp)).token fun word _ => ?_
  refine (reads_type c.type (l.part 0) hc.1).bind ?_ fun type ht => ?_
  · exact fun o _ => avoids_word (by decide) rfl
  refine (reads_identifier c.name).token fun name hname => ?_
  refine (reads_expect rfl).token fun _ _ => ?_
  refine reads_closed l (reads_const c.value (l.part 1) hc.2) (by decide) fun value hv => ?_
  refine (reads_declare first).andThen fun decl _ => Reads.pure ?_
  simp [Definition.erase, ht, hname, hv]

theorem reads_typedefDefinition (t : TypedefTree) (l : Layout)
    (ht : (Definition.typedef t).spellable = true) :
    Reads typedefDefinition (t.spelled l) (avoids continuations [])
      fun d => (Definition.typedef d).erase = (Definition.typedef t).erase := by
  unfold typedefDefinition TypedefTree.spelled
  refine reads_place.ahead (m := anything) (fun _ _ => trivial) fun first _ => ?_
  refine (reads_expectWord (by simp)).token fun word _ => ?_
  refine (reads_type t.type (l.part 0) ht).bind ?_ fun type ht => ?_
  · exact fun o _ => avoids_word (by decide) rfl
  refine (reads_identifier t.name).token fun name hname => ?_
  refine reads_ending _ l t.annotations first fun bs decl hbs => ?_
  simp [Definition.erase, ht, hname, hbs]

theorem reads_memberValue {value : Option Int} (hvalue : ∀ n ∈ value, InRange n) :
    Reads memberValue (spellMemberValue value) (avoids [.equal] []) (· = value) := by
  unfold memberValue
  cases value with
  | none =>
      refine reads_accept_none.ahead (fun o ho => ho) ?_
      rintro _ rfl
      exact Reads.pure rfl
  | some n =>
      refine (reads_accept rfl).token ?_
      rintro _ rfl
      exact ((reads_integer (hvalue n rfl)).mono (fun _ _ => trivial) fun _ h => h).map
        fun k hk => congrArg some hk

theorem reads_enumMember (m : MemberTree) (l : Layout) (hm : ∀ n ∈ m.value, InRange n) :
    Reads enumMember (m.spelled l) (avoids continuations []) (·.erase = m.erase) := by
  unfold enumMember MemberTree.spelled
  refine reads_place.ahead (m := anything) (fun _ _ => trivial) fun first _ => ?_
  refine (reads_identifier m.name).token fun name hname => ?_
  refine (reads_memberValue hm).bind ?_ fun value hv => ?_
  · exact fun o ho => avoids_or (avoids_ending _ l _ (by decide) (by decide) (by decide))
      (avoids_of_continuations ho (by decide) (by simp))
  refine reads_ending _ l m.annotations first fun bs decl hbs => ?_
  simp [MemberTree.erase, hname, hv, hbs]

theorem reads_enumDefinition (e : EnumTree) (l : Layout)
    (he : (Definition.enum e).spellable = true) :
    Reads enumDefinition (e.spelled l) (avoids continuations [])
      fun d => (Definition.enum d).erase = (Definition.enum e).erase := by
  simp only [Definition.spellable, List.all_eq_true, decide_eq_true_eq] at he
  unfold enumDefinition EnumTree.spelled
  refine reads_place.ahead (m := anything) (fun _ _ => trivial) fun first _ => ?_
  refine (reads_expectWord (by simp)).token fun word _ => ?_
  refine (reads_identifier e.name).token fun name hname => ?_
  refine (reads_expect rfl).token fun _ _ => ?_
  have hmembers : Reads (upTo .curlyClose enumMember)
      ((l.part 0).spread MemberTree.spelled e.members ++ [Face.mark .curlyClose]) anything
      fun ms => ms.map MemberTree.erase = e.members.map MemberTree.erase := by
    refine reads_upTo_spread (m := avoids continuations []) (y := MemberTree.erase) (l.part 0)
      e.members (avoids_mark (by decide) (by decide)) ?_ ?_
    · intro u hu
      exact reads_enumMember u.2 u.1 (he _ (Layout.mem_of_mem_along hu))
    · intro u _
      exact ⟨Face.word u.2.name, rfl, by simp, avoids_word (by decide) rfl⟩
  refine hmembers.bind (fun _ _ => trivial) fun members hm => ?_
  refine reads_ending _ l e.annotations first fun bs decl hbs => ?_
  simp [Definition.erase, hname, hm, hbs]

theorem variantOf_name {v : Variant} (h : v ≠ .message) :
    v.name ∈ ["struct", "union", "exception"] ∧ variantOf v.name = v := by
  cases v <;> simp_all [Variant.name, variantOf]

theorem reads_structDefinition (s : StructTree) (l : Layout)
    (hs : (Definition.struct s).spellable = true) :
    Reads structDefinition (s.spelled l) (avoids continuations [])
      fun d => (Definition.struct d).erase = (Definition.struct s).erase := by
  simp only [Definition.spellable, Bool.and_eq_true, bne_iff_ne] at hs
  obtain ⟨hword, hvariant⟩ := variantOf_name hs.1
  unfold structDefinition StructTree.spelled
  refine reads_place.ahead (m := anything) (fun _ _ => trivial) fun first _ => ?_
  refine (reads_expectWord hword).token fun word hw => ?_
  refine (reads_identifier s.name).token fun name hname => ?_
  refine reads_acceptWord_none.ahead (fun o _ => avoids_mark (by simp) (by decide)) fun _ _ => ?_
  refine (reads_expect rfl).token fun _ _ => ?_
  refine (reads_fields (l.part 0) s.fields (by decide) hs.2).bind (fun _ _ => trivial)
    fun fields hf => ?_
  refine reads_ending _ l s.annotations first fun bs decl hbs => ?_
  simp [Definition.erase, hw, hvariant, hname, hf, hbs]

/-! ## Services -/

theorem reads_result {t : Option TypeTree} (l : Layout) (ht : t.all TypeTree.plain = true) :
    Reads result (spellResult l t) (avoids [.dot, .parenOpen] [])
      fun r => r.map TypeTree.erase = t.map TypeTree.erase := by
  unfold result
  cases t with
  | none =>
      refine (reads_acceptWord rfl).token ?_
      rintro _ rfl
      exact Reads.pure rfl
  | some t =>
      refine reads_acceptWord_none.ahead (fun o _ => ?_) ?_
      · exact avoids_type t l ht (by simp) (by decide) (by decide) o
      · rintro _ rfl
        exact (reads_type t l ht).map fun r hr => congrArg some hr

theorem reads_throwsClause (l : Layout) (fs : List FieldTree)
    (hfs : fs.all FieldTree.spellable = true) :
    Reads throwsClause (spellThrows l fs) (avoids [] ["throws"])
      fun gs => gs.map FieldTree.erase = fs.map FieldTree.erase := by
  unfold throwsClause spellThrows
  cases hempty : fs.isEmpty with
  | true =>
      have hnil : fs = [] := by simpa using hempty
      subst hnil
      refine reads_acceptWord_none.ahead (fun o ho => ho) ?_
      rintro _ rfl
      exact Reads.pure rfl
  | false =>
      refine (reads_acceptWord rfl).token ?_
      rintro _ rfl
      exact (reads_fieldList l fs hfs).mono (fun _ _ => trivial) fun _ h => h

theorem avoids_result {kinds : List TokenKind} {words : List String} {t : Option TypeTree}
    (l : Layout) (ht : t.all TypeTree.plain = true) (hk : .identifier ∉ kinds)
    (hw : ∀ w ∈ words, w ∈ typeWords)
    (hc : ∀ w ∈ ["list", "set", "map", "void"], w ∉ words) (o : Option Face) :
    avoids kinds words ((spellResult l t).head?.or o) := by
  cases t with
  | none =>
      refine avoids_word hk ?_
      rw [List.contains_eq_mem, decide_eq_false_iff_not]
      exact hc "void" (by simp)
  | some t =>
      refine avoids_type t l ht hk hw (fun w hm => hc w ?_) o
      simp only [List.mem_cons, List.not_mem_nil, or_false] at hm ⊢
      rcases hm with h | h | h <;> simp [h]

theorem reads_function (f : FunctionTree) (l : Layout) (hf : f.spellable = true) :
    Reads function (f.spelled l) (avoids continuations ["throws"]) (·.erase = f.erase) := by
  simp only [FunctionTree.spellable, Bool.and_eq_true] at hf
  obtain ⟨⟨hreturns, hparams⟩, hthrows⟩ := hf
  unfold function FunctionTree.spelled
  refine reads_place.ahead (m := anything) (fun _ _ => trivial) fun first _ => ?_
  refine reads_here.ahead (m := anything) (fun _ _ => trivial) fun position _ => ?_
  have honeway : Reads (acceptWord ["oneway"]) (if f.oneway then [Face.word "oneway"] else [])
      (avoids [] ["oneway"]) (fun w => w.isSome = f.oneway) := by
    cases f.oneway with
    | true =>
        refine (reads_acceptWord rfl).mono (fun _ _ => trivial) ?_
        rintro _ rfl
        rfl
    | false =>
        refine reads_acceptWord_none.imp ?_
        rintro _ rfl
        rfl
  refine honeway.bind ?_ fun oneway ho => ?_
  · intro o _
    rw [List.head?_append, Option.or_assoc]
    exact avoids_result _ hreturns (by simp) (by decide) (by decide) _
  refine (reads_result (l.part 0) hreturns).bind ?_ fun returns hr => ?_
  · exact fun o _ => avoids_word (by decide) rfl
  refine (reads_identifier f.name).token fun name hname => ?_
  refine (reads_fieldList (l.part 1) f.params hparams).bind (fun _ _ => trivial)
    fun params hp => ?_
  refine (reads_throwsClause (l.part 2) f.throws hthrows).bind ?_ fun throws ht => ?_
  · exact fun o ho => avoids_or (avoids_ending _ l _ (by decide) (by decide) (by decide))
      (avoids_mono ho (by simp) (by simp))
  refine (reads_ending _ l f.annotations first fun bs decl hbs => ?_).mono
    (fun o ho => avoids_mono ho (by simp) (by simp)) fun _ h => h
  simp [FunctionTree.erase, ho, hname, hr, hp, ht, hbs]

/-- A function starts with a word, and never with the one that opens exceptions. -/
theorem head_function (f : FunctionTree) (l : Layout) (hf : f.spellable = true) :
    ∃ w, (f.spelled l).head? = some (Face.word w) ∧ w ≠ "throws" := by
  simp only [FunctionTree.spellable, Bool.and_eq_true] at hf
  unfold FunctionTree.spelled
  cases f.oneway with
  | true => exact ⟨"oneway", rfl, by decide⟩
  | false =>
      cases hr : f.returns with
      | none => exact ⟨"void", rfl, by decide⟩
      | some t =>
          obtain ⟨w, hw, hcase⟩ := head_type t (l.part 0) (by simpa [hr] using hf.1.1)
          refine ⟨w, by simp [spellResult, hw], ?_⟩
          rintro rfl
          revert hcase
          decide

theorem reads_parentName (parent : String) :
    Reads parentName (spellParent parent) (avoids [.dot] ["extends"]) (· = parent) := by
  unfold parentName spellParent
  by_cases hempty : parent = ""
  · rw [if_pos hempty]
    refine reads_acceptWord_none.ahead (fun o ho => avoids_mono ho (by simp) (by simp)) ?_
    rintro _ rfl
    exact Reads.pure hempty.symm
  · rw [if_neg hempty]
    refine (reads_acceptWord rfl).token ?_
    rintro _ rfl
    exact (reads_dottedName parent).mono (fun o ho => avoids_mono ho (by simp) (by simp))
      fun _ h => h

theorem reads_serviceDefinition (s : ServiceTree) (l : Layout)
    (hs : (Definition.service s).spellable = true) :
    Reads serviceDefinition (s.spelled l) (avoids continuations [])
      fun d => (Definition.service d).erase = (Definition.service s).erase := by
  simp only [Definition.spellable, List.all_eq_true] at hs
  unfold serviceDefinition ServiceTree.spelled
  refine reads_place.ahead (m := anything) (fun _ _ => trivial) fun first _ => ?_
  refine (reads_expectWord (by simp)).token fun word _ => ?_
  refine (reads_identifier s.name).token fun name hname => ?_
  refine (reads_parentName s.parent).bind ?_ fun parent hp => ?_
  · exact fun o _ => avoids_mark (by decide) (by decide)
  refine (reads_expect rfl).token fun _ _ => ?_
  have hfunctions : Reads (upTo .curlyClose function)
      ((l.part 0).spread FunctionTree.spelled s.functions ++ [Face.mark .curlyClose]) anything
      fun fs => fs.map FunctionTree.erase = s.functions.map FunctionTree.erase := by
    refine reads_upTo_spread (m := avoids continuations ["throws"]) (y := FunctionTree.erase)
      (l.part 0) s.functions (avoids_mark (by decide) (by decide)) ?_ ?_
    · intro u hu
      exact reads_function u.2 u.1 (hs _ (Layout.mem_of_mem_along hu))
    · intro u hu
      obtain ⟨w, hw, hne⟩ := head_function u.2 u.1 (hs _ (Layout.mem_of_mem_along hu))
      exact ⟨Face.word w, hw, by simp, avoids_word (by decide) (by simp [hne])⟩
  refine hfunctions.bind (fun _ _ => trivial) fun functions hf => ?_
  refine reads_ending _ l s.annotations first fun bs decl hbs => ?_
  simp [Definition.erase, hname, hp, hf, hbs]

/-! ## Files -/

theorem reads_includeHeader (p : Position) (path : String) (cpp : Bool) (l : Layout) :
    Reads includeHeader ((Header.included p path cpp).spelled l) (avoids continuations [])
      (·.erase = (Header.included p path cpp).erase) := by
  unfold includeHeader Header.spelled
  refine (reads_expectWord (by cases cpp <;> simp)).token fun word hw => ?_
  refine (reads_text path).token fun t ht => ?_
  refine (reads_close l).andThen fun _ _ => Reads.pure ?_
  cases cpp <;> simp [Header.erase, hw, ht]

theorem reads_namespaceHeader (p : Position) (scope name : String) (l : Layout) :
    Reads namespaceHeader ((Header.namespaced p scope name).spelled l) (avoids continuations [])
      (·.erase = (Header.namespaced p scope name).erase) := by
  have hscope : Reads (expectOf [.identifier, .star])
      [if scope = "*" then Face.mark .star else Face.word scope] anything (·.value = scope) := by
    by_cases hstar : scope = "*"
    · rw [if_pos hstar]
      refine (reads_expectOf (by simp)).imp fun t ht => ?_
      exact (congrArg Face.value ht).trans hstar.symm
    · rw [if_neg hstar]
      exact (reads_expectOf (by simp)).imp fun t ht => congrArg Face.value ht
  unfold namespaceHeader Header.spelled
  refine (reads_expectWord (by simp)).token fun word _ => ?_
  refine hscope.token fun t ht => ?_
  refine (reads_dottedName name).bind ?_ fun name' hname => ?_
  · exact fun o ho => avoids_close l (by decide) ho
  -- A namespace is spelled without annotations.
  refine reads_closed l (reads_attempt (reads_annotations l [])) (by decide) fun _ _ => ?_
  exact Reads.pure (by simp [Header.erase, ht, hname])

/-- The declarations by the words that open them. -/
def definitionStatements : List (List String × Parser Definition) :=
  [(["const"], do return .const (← constDefinition)),
   (["typedef"], do return .typedef (← typedefDefinition)),
   (["enum"], do return .enum (← enumDefinition)),
   (["struct", "union", "exception"], do return .struct (← structDefinition)),
   (["service"], do return .service (← serviceDefinition))]

theorem definition_eq : definition = Parser.byWord illegal definitionStatements := rfl

theorem reads_definition (d : Definition) (l : Layout) (hd : d.spellable = true) :
    Reads definition (d.spelled l) (avoids continuations []) (·.erase = d.erase) := by
  rw [definition_eq]
  cases d with
  | const c =>
      refine Reads.byWord (f := Face.word "const") rfl rfl ?_
      exact (reads_constDefinition c l hd).andThen fun _ h => Reads.pure h
  | typedef t =>
      refine Reads.byWord (f := Face.word "typedef") rfl rfl ?_
      exact (reads_typedefDefinition t l hd).andThen fun _ h => Reads.pure h
  | enum e =>
      refine Reads.byWord (f := Face.word "enum") rfl rfl ?_
      exact (reads_enumDefinition e l hd).andThen fun _ h => Reads.pure h
  | struct s =>
      have hlisted : definitionStatements.find?
          (fun production => (Face.word s.variant.name).isWord production.1) =
            some (["struct", "union", "exception"], do return .struct (← structDefinition)) := by
        cases hvariant : s.variant with
        | message => simp [Definition.spellable, hvariant] at hd
        | struct => rfl
        | union => rfl
        | exception => rfl
      refine Reads.byWord (f := Face.word s.variant.name) rfl hlisted ?_
      exact (reads_structDefinition s l hd).andThen fun _ h => Reads.pure h
  | service s =>
      refine Reads.byWord (f := Face.word "service") rfl rfl ?_
      exact (reads_serviceDefinition s l hd).andThen fun _ h => Reads.pure h

/-- A declaration starts with a word that opens no header. -/
theorem head_definition (d : Definition) (l : Layout) (hd : d.spellable = true) :
    ∃ w, (d.spelled l).head? = some (Face.word w) ∧
      w ∉ ["include", "cpp_include", "namespace"] := by
  cases d with
  | const c => exact ⟨"const", rfl, by decide⟩
  | typedef t => exact ⟨"typedef", rfl, by decide⟩
  | enum e => exact ⟨"enum", rfl, by decide⟩
  | struct s =>
      refine ⟨s.variant.name, rfl, ?_⟩
      cases s.variant <;> decide
  | service s => exact ⟨"service", rfl, by decide⟩

def eraseItem : Header ⊕ Definition → Header ⊕ Definition := Sum.map Header.erase Definition.erase

/-- The headers by the words that open them. -/
def headerStatements : List (List String × Parser (Header ⊕ Definition)) :=
  [(["include", "cpp_include"], do return .inl (← includeHeader)),
   (["namespace"], do return .inl (← namespaceHeader))]

theorem item_eq : item = Parser.byWord (do return .inr (← definition)) headerStatements := rfl

theorem not_isWord_headerStatements {w : String}
    (hw : w ∉ ["include", "cpp_include", "namespace"]) :
    ∀ production ∈ headerStatements, (Face.word w).isWord production.1 = false := by
  simp only [List.mem_cons, not_or] at hw
  simp [headerStatements, hw]

theorem reads_item (i : Header ⊕ Definition) (l : Layout)
    (hi : ∀ d, i = .inr d → d.spellable = true) :
    Reads item (spellItem l i) (avoids continuations []) fun j => eraseItem j = eraseItem i := by
  rw [item_eq]
  rcases i with h | d
  · cases h with
    | included p path cpp =>
        have hlisted : headerStatements.find? (fun production =>
            (Face.word (if cpp then "cpp_include" else "include")).isWord production.1) =
              some (["include", "cpp_include"], do return .inl (← includeHeader)) := by
          cases cpp <;> rfl
        refine Reads.byWord rfl hlisted ?_
        refine (reads_includeHeader p path cpp l).andThen fun h hh => Reads.pure ?_
        exact congrArg Sum.inl hh
    | namespaced p scope name =>
        refine Reads.byWord (f := Face.word "namespace") rfl rfl ?_
        refine (reads_namespaceHeader p scope name l).andThen fun h hh => Reads.pure ?_
        exact congrArg Sum.inl hh
  · obtain ⟨w, hw, hheader⟩ := head_definition d l (hi d rfl)
    refine Reads.byWord_none hw (not_isWord_headerStatements hheader) ?_
    refine (reads_definition d l (hi d rfl)).andThen fun e he => Reads.pure ?_
    exact congrArg Sum.inr he

theorem head_item (i : Header ⊕ Definition) (l : Layout)
    (hi : ∀ d, i = .inr d → d.spellable = true) :
    ∃ w, (spellItem l i).head? = some (Face.word w) := by
  rcases i with h | d
  · cases h with
    | included p path cpp => exact ⟨_, rfl⟩
    | namespaced p scope name => exact ⟨_, rfl⟩
  · obtain ⟨w, hw, -⟩ := head_definition d l (hi d rfl)
    exact ⟨w, hw⟩

/-- All items of a file, up to the end of its tokens. -/
theorem reads_items (items : List (Header ⊕ Definition)) (l : Layout)
    (hitems : ∀ d, .inr d ∈ items → d.spellable = true) :
    Reads (whileDo (fun c => !c.atEnd) item) (spellFile l items) (· = none)
      fun js => js.map eraseItem = items.map eraseItem := by
  have hitem : ∀ u ∈ l.along items, LoopItem item (fun u => spellItem u.1 u.2) eraseItem
      (fun u => eraseItem u.2) (fun o => !o.isNone) (avoids continuations []) u := by
    intro u hu
    have hi : ∀ d, u.2 = .inr d → d.spellable = true :=
      fun d h => hitems d (h ▸ Layout.mem_of_mem_along hu)
    obtain ⟨w, hw⟩ := head_item u.2 u.1 hi
    exact ⟨reads_item u.2 u.1 hi, Face.word w, hw, rfl, avoids_word (by decide) rfl⟩
  have hread := reads_whileDo (n := (· = none))
    (fun c => congrArg (!·) (Cursor.atEnd_eq c)) (fun o ho => by simp [ho]) (l.along items) hitem
  rwa [Layout.map_along] at hread

theorem filterMap_getLeft_eraseItem (items : List (Header ⊕ Definition)) :
    (items.map eraseItem).filterMap Sum.getLeft? =
      (items.filterMap Sum.getLeft?).map Header.erase := by
  rw [List.filterMap_map, List.map_filterMap]
  congr
  funext i
  cases i <;> rfl

theorem filterMap_getRight_eraseItem (items : List (Header ⊕ Definition)) :
    (items.map eraseItem).filterMap Sum.getRight? =
      (items.filterMap Sum.getRight?).map Definition.erase := by
  rw [List.filterMap_map, List.map_filterMap]
  congr
  funext i
  cases i <;> rfl

/-- A parse that has not failed yet reads its items. -/
theorem run_file {c : Cursor} (h : c.failed = false) :
    file.run c = ((do
      let items ← whileDo (fun c => !c.atEnd) item
      return { headers := items.filterMap Sum.getLeft?,
               definitions := items.filterMap Sum.getRight? }) : Parser Tree).run c := by
  simp [file, Parser.run, look, h, bind]

/-- Parsing undoes spelling: whatever the order of the headers and declarations
of a tree and whatever separators close its items, a parse that starts at the
tokens of the tree reports nothing, consumes them all and gives the tree. -/
theorem run_file_spelled (t : Tree) (items : List (Header ⊕ Definition)) (l : Layout)
    (harranged : t.Arranged items) (ht : t.spellable = true) (c : Cursor)
    (hc : c.faces = spellFile l items) (hok : c.failed = false) :
    ∃ t' c', file.run c = (some t', c') ∧ t'.erase = t.erase ∧ c'.rest = [] ∧
      c'.reporter = c.reporter ∧ c'.failed = false := by
  obtain ⟨hheaders, hdefinitions⟩ := harranged
  have hitems : ∀ d, .inr d ∈ items → d.spellable = true := by
    intro d hd
    have hmem : d ∈ t.definitions := by
      rw [← hdefinitions, List.mem_filterMap]
      exact ⟨.inr d, hd, rfl⟩
    exact List.all_eq_true.mp ht d hmem
  have hread : Reads (do
      let js ← whileDo (fun c => !c.atEnd) item
      return { headers := js.filterMap Sum.getLeft?, definitions := js.filterMap Sum.getRight? })
      (spellFile l items) (· = none) fun t' : Tree => t'.erase = t.erase := by
    refine (reads_items items l hitems).andThen fun js hjs => Reads.pure ?_
    simp only [Tree.erase, ← hheaders, ← hdefinitions, ← filterMap_getLeft_eraseItem,
      ← filterMap_getRight_eraseItem, hjs]
  obtain ⟨t', c', hrun, ht', hrest, hreporter, hfailed⟩ := hread c [] (by simpa using hc) rfl
  refine ⟨t', c', ?_, ht', ?_, hreporter, hfailed.trans hok⟩
  · rw [run_file hok]
    exact hrun
  · simpa [Cursor.faces] using hrest

/-- A file without separators, whose items run into each other if any of them
takes too much: a default before a number, a result before exceptions. -/
def denseItems : List (Header ⊕ Definition) :=
  [.inl (.namespaced {} "*" "demo.js"),
   .inr (.struct { variant := .union, name := "xsd_all", fields := [
     { type := .map {} (.name {} "string" []) (.list {} (.name {} "i64" []) []) [{ key := "a.b" }],
       name := "required", default := .map [(.scalar .string "k", .list [.scalar .int "-1"])] },
     { id := some (-7), requirement := .optional, type := .name {} "base.Tag" [], name := "tag",
       default := .scalar .identifier "base.none" }] }),
   .inl (.included {} "base.thrift" true),
   .inr (.service { name := "extends", parent := "base.S", functions := [
     { oneway := true, name := "throws" },
     { returns := some (.set {} (.name {} "Item" []) []), name := "get",
       throws := [{ id := some 1, type := .name {} "NotFound" [], name := "e" }],
       annotations := [{ key := "api.get", value := "/" }, { key := "x" }] }] })]

theorem run_file_dense :
    ∃ t' c', file.run (Cursor.ofTokens "dense.thrift"
        ((spellFile (fun _ => .none) denseItems).map Face.token) {} 0) = (some t', c') ∧
      t'.erase = Tree.erase { headers := denseItems.filterMap Sum.getLeft?,
                              definitions := denseItems.filterMap Sum.getRight? } ∧
      c'.rest = [] ∧ c'.reporter.reported = [] := by
  obtain ⟨t', c', hrun, ht', hrest, hreporter, -⟩ := run_file_spelled
    { headers := denseItems.filterMap Sum.getLeft?,
      definitions := denseItems.filterMap Sum.getRight? } denseItems (fun _ => .none) ⟨rfl, rfl⟩
    (by decide +kernel)
    (Cursor.ofTokens "dense.thrift" ((spellFile (fun _ => .none) denseItems).map Face.token) {} 0)
    (by decide +kernel) (by decide +kernel)
  exact ⟨t', c', hrun, ht', hrest, by rw [hreporter]; rfl⟩

end Thrift
end ClientGen
