import ClientGen.Proofs.Load.Parsing
import ClientGen.Proofs.Proto.RoundTrip
import ClientGen.Proofs.Source.Refusing
import ClientGen.Proofs.Thrift.RoundTrip

/-! # Declarations among others

A file of either language is a row of declarations, and each of them is read as if it stood
alone. So a declaration in a form of its own may stand among any declarations that can be
written (`Thrift.reads_among`, `Proto.reads_among`), and one that is refused ends the row
(`Thrift.refuses_among`, `Proto.refuses_among`). A text that is read has a document
(`Load.parseText_of_reads`), and one that is refused has a report
(`Load.parseText_of_refuses`).
-/

namespace ClientGen

open Source

/-- The tokens of declarations of any kind that can be written, one behind the other. -/
inductive DeclarationRow : Dialect → List Face → Prop where
  | thrift (l : Thrift.Layout) (items : List (Thrift.Header ⊕ Thrift.Definition))
      (hspellable : ∀ d, .inr d ∈ items → d.spellable = true) :
      DeclarationRow .thrift (Thrift.spellFile l items)
  | protobuf (forms : List Proto.FileForm)
      (hspellable : forms.all Proto.FileForm.spellable = true) :
      DeclarationRow .protobuf (forms.flatMap Proto.FileForm.spelled)

/-! ## Thrift -/

namespace Thrift

/-- The declarations of a file with what they are read into, without positions. -/
def units (l : Layout) (items : List (Header ⊕ Definition)) :
    List (List Face × (Header ⊕ Definition)) :=
  (l.along items).map fun u => (spellItem u.1 u.2, eraseItem u.2)

theorem spell_units (l : Layout) (items : List (Header ⊕ Definition)) :
    (units l items).flatMap Prod.fst = spellFile l items := by
  simp [units, spellFile, Layout.spread, List.flatMap_map]

theorem loopItem_units {l : Layout} {items : List (Header ⊕ Definition)}
    (hspellable : ∀ d, .inr d ∈ items → d.spellable = true) :
    ∀ u ∈ units l items, LoopItem item Prod.fst eraseItem Prod.snd (fun o => !o.isNone)
      (avoids continuations []) u := by
  intro u h
  obtain ⟨v, hlisted, rfl⟩ := List.mem_map.mp h
  have hown : ∀ d, v.2 = .inr d → d.spellable = true :=
    fun d hsame => hspellable d (hsame ▸ Layout.mem_of_mem_along hlisted)
  obtain ⟨w, hhead⟩ := head_item v.2 v.1 hown
  exact ⟨reads_item v.2 v.1 hown, Face.word w, hhead, rfl, avoids_word (by decide) rfl⟩

theorem reads_among {before after own : List Face} {d : Definition}
    (hwritten₁ : DeclarationRow .thrift before) (hwritten₂ : DeclarationRow .thrift after)
    (heach : LoopItem item Prod.fst eraseItem Prod.snd (fun o => !o.isNone)
      (avoids continuations []) (own, .inr d)) :
    Reads grammar.items (before ++ own ++ after) (· = none) fun t =>
      ∃ d' ∈ t.definitions, d'.erase = d := by
  cases hwritten₁ with
  | thrift l₁ items₁ hspellable₁ =>
    cases hwritten₂ with
    | thrift l₂ items₂ hspellable₂ =>
      have hall : ∀ u ∈ units l₁ items₁ ++ (own, .inr d) :: units l₂ items₂,
          LoopItem item Prod.fst eraseItem Prod.snd (fun o => !o.isNone)
            (avoids continuations []) u := by
        intro u h
        rcases List.mem_append.mp h with h | h
        · exact loopItem_units hspellable₁ u h
        · rcases List.mem_cons.mp h with rfl | h
          · exact heach
          · exact loopItem_units hspellable₂ u h
      have hloop := reads_whileDo (n := (· = none)) (fun c => congrArg (!·) (Cursor.atEnd_eq c))
        (fun o ho => by simp [ho]) (units l₁ items₁ ++ (own, .inr d) :: units l₂ items₂) hall
      rw [List.flatMap_append, List.flatMap_cons, spell_units, spell_units,
        ← List.append_assoc] at hloop
      refine hloop.andThen fun items hsame => Reads.pure ?_
      have hlisted : .inr d ∈ items.map eraseItem := by simp [hsame]
      obtain ⟨i, hmember, herased⟩ := List.mem_map.mp hlisted
      cases i with
      | inl h => cases herased
      | inr d' => exact ⟨d', List.mem_filterMap.mpr ⟨.inr d', hmember, rfl⟩, Sum.inr.inj herased⟩

theorem refuses_among {before own : List Face} {f : Face} {code : Code} {message : String}
    (hwritten : DeclarationRow .thrift before) (hhead : own.head? = some f)
    (hlimit : avoids continuations [] (some f)) (hrefused : Refuses item own code message) :
    Refuses grammar.items (before ++ own) code message := by
  cases hwritten with
  | thrift l items hspellable =>
    have hloop := refuses_whileDo (g := fun o => !o.isNone)
      (fun c => congrArg (!·) (Cursor.atEnd_eq c)) (units l items) (loopItem_units hspellable)
      ⟨f, hhead, rfl, hlimit⟩ hrefused
    rw [spell_units] at hloop
    exact hloop.first

end Thrift

/-! ## Protobuf -/

namespace Proto

/-- The statements of a file with what they are read into, without positions. -/
def units (forms : List FileForm) : List (List Face × FileItem) :=
  forms.map fun i => (i.spelled, i.item)

theorem spell_units (forms : List FileForm) :
    (units forms).flatMap Prod.fst = forms.flatMap FileForm.spelled := by
  simp [units, List.flatMap_map]

theorem loopItem_units {forms : List FileForm}
    (hspellable : forms.all FileForm.spellable = true) :
    ∀ u ∈ units forms, LoopItem fileItem Prod.fst FileItem.erase Prod.snd (fun o => !o.isNone)
      anything u := by
  intro u h
  obtain ⟨i, hlisted, rfl⟩ := List.mem_map.mp h
  obtain ⟨f, hhead⟩ := head_fileForm i
  exact ⟨reads_fileItem i (List.all_eq_true.mp hspellable i hlisted), f, hhead, rfl, trivial⟩

theorem mem_definitions_add {d : Definition} {i : FileItem} {t : Tree}
    (h : d ∈ t.definitions ∨ i = .definition d) : d ∈ (t.add i).definitions := by
  rcases h with h | rfl
  · cases i <;> simp [Tree.add, h]
  · simp [Tree.add]

theorem mem_definitions_foldl {d : Definition} {items : List FileItem} {t : Tree}
    (h : d ∈ t.definitions ∨ .definition d ∈ items) :
    d ∈ (items.foldl Tree.add t).definitions := by
  induction items generalizing t with
  | nil => simpa using h
  | cons i items ih =>
    refine ih ?_
    rcases h with h | h
    · exact .inl (mem_definitions_add (.inl h))
    · rcases List.mem_cons.mp h with hsame | h
      · exact .inl (mem_definitions_add (.inr hsame.symm))
      · exact .inr h

theorem reads_among {before after own : List Face} {d : Definition}
    (hwritten₁ : DeclarationRow .protobuf before) (hwritten₂ : DeclarationRow .protobuf after)
    (heach : LoopItem fileItem Prod.fst FileItem.erase Prod.snd (fun o => !o.isNone) anything
      (own, .definition d)) :
    Reads grammar.items (before ++ own ++ after) (· = none) fun t =>
      ∃ d' ∈ t.definitions, d'.erase = d := by
  cases hwritten₁ with
  | protobuf forms₁ hspellable₁ =>
    cases hwritten₂ with
    | protobuf forms₂ hspellable₂ =>
      have hall : ∀ u ∈ units forms₁ ++ (own, .definition d) :: units forms₂,
          LoopItem fileItem Prod.fst FileItem.erase Prod.snd (fun o => !o.isNone) anything u := by
        intro u h
        rcases List.mem_append.mp h with h | h
        · exact loopItem_units hspellable₁ u h
        · rcases List.mem_cons.mp h with rfl | h
          · exact heach
          · exact loopItem_units hspellable₂ u h
      have hloop := reads_whileDo (n := (· = none)) (fun c => congrArg (!·) (Cursor.atEnd_eq c))
        (fun o ho => by simp [ho, anything])
        (units forms₁ ++ (own, .definition d) :: units forms₂) hall
      rw [List.flatMap_append, List.flatMap_cons, spell_units, spell_units,
        ← List.append_assoc] at hloop
      refine hloop.andThen fun items hsame => Reads.pure ?_
      have hlisted : .definition d ∈ items.map FileItem.erase := by simp [hsame]
      obtain ⟨i, hmember, herased⟩ := List.mem_map.mp hlisted
      cases i with
      | definition d' =>
        exact ⟨d', mem_definitions_foldl (.inr hmember), FileItem.definition.inj herased⟩
      | nothing => cases herased
      | edition _ => cases herased
      | package _ => cases herased
      | imported _ => cases herased
      | options _ => cases herased

theorem refuses_among {before own : List Face} {f : Face} {code : Code} {message : String}
    (hwritten : DeclarationRow .protobuf before) (hhead : own.head? = some f)
    (hrefused : Refuses fileItem own code message) :
    Refuses grammar.items (before ++ own) code message := by
  cases hwritten with
  | protobuf forms hspellable =>
    have hloop := refuses_whileDo (g := fun o => !o.isNone)
      (fun c => congrArg (!·) (Cursor.atEnd_eq c)) (units forms) (loopItem_units hspellable)
      ⟨f, hhead, rfl, trivial⟩ hrefused
    rw [spell_units] at hloop
    exact hloop.first

end Proto

/-! ## Texts -/

namespace Load

/-- A text without lexical faults whose tokens are read has a document, and nothing is
reported. -/
theorem parseText_of_reads {dialect : Dialect} {path text : String} {r : Reporter}
    (hsilent : (lexText dialect path text r).2.reported = r.reported) {faces : List Face}
    (hspelled : significant (lexText dialect path text r).1 = faces)
    {Q : (language dialect).Tree → Prop}
    (hreads : Reads (language dialect).grammar.items faces (· = none) Q) (revise : Bool) :
    ∃ t comments, parseText dialect path text revise r =
      (.ok ((language dialect).document path comments t), r) ∧ Q t := by
  rw [lexText_eq] at hsilent hspelled
  obtain ⟨hreporter, hunfailed⟩ := Cursor.ofSource_of_silent hsilent
  have hseen := (Cursor.faces_ofSource (language dialect).options path text r).trans hspelled
  obtain ⟨t, c, hrun, hholds, -, hreporter', hfailed⟩ := hreads _ [] (by simpa using hseen) rfl
  have hsession : (language dialect).session path text r = (some t, c) :=
    ((language dialect).grammar.run_of_unfailed hunfailed).trans hrun
  have hconclude : (language dialect).conclude path revise (some t, c) =
      .ok ((language dialect).document path (attached (attachments c revise)) t) := by
    simp [Language.conclude, hfailed.trans hunfailed]
  rw [parseText_eq, hsession, hconclude]
  exact ⟨t, _, Prod.ext rfl (hreporter'.trans hreporter), hholds⟩

/-- A text without lexical faults whose tokens are refused has no document, and what refused
them is the one report. -/
theorem parseText_of_refuses {dialect : Dialect} {path text : String} {r : Reporter}
    (hcodes : r.nonfatal = Code.harmless)
    (hsilent : (lexText dialect path text r).2.reported = r.reported) {faces after : List Face}
    (hspelled : significant (lexText dialect path text r).1 = faces ++ after) {code : Code}
    {message : String} (hrefuses : Refuses (language dialect).grammar.items faces code message)
    (revise : Bool) :
    ∃ d, parseText dialect path text revise r = (.error (.diagnostic d), r.report d) ∧
      d.code = code ∧ d.message = message := by
  rw [lexText_eq] at hsilent hspelled
  obtain ⟨hreporter, hunfailed⟩ := Cursor.ofSource_of_silent hsilent
  have hseen := (Cursor.faces_ofSource (language dialect).options path text r).trans hspelled
  obtain ⟨d, c, hrun, hreported, hsame⟩ := hrefuses _ after hseen
  have hsession : (language dialect).session path text r = (none, c) :=
    ((language dialect).grammar.run_of_unfailed hunfailed).trans hrun
  have hlast : (parseText dialect path text revise r).2 = r.report d := by
    rw [parseText_eq, hsession]
    exact hreported.trans (congrArg (·.report d) hreporter)
  obtain ⟨new, hadded, -, houtcome⟩ := parseText_cases dialect path text revise r hcodes
  have hone : new = [d] := by
    rw [hlast, Reporter.reported_report] at hadded
    exact (List.append_cancel_left hadded).symm
  rcases houtcome with ⟨hnone, -⟩ | ⟨d', ds, hcons, hfailure⟩
  · exact absurd (hone.symm.trans hnone) (List.cons_ne_nil _ _)
  · obtain ⟨rfl, -⟩ := List.cons.inj (hone.symm.trans hcons)
    exact ⟨d, Prod.ext hfailure hlast, hsame⟩

end Load

end ClientGen
