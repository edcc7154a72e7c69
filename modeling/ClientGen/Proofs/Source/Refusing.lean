import ClientGen.Proofs.Source.Reading

/-! # Refusing spelled productions

The counterpart of reading: a parser *refuses* a sequence of faces when it stops in it,
whatever stands behind, with no value and one report. A refusal ends every production
around it, so a production that reads some parts and then refuses the next one refuses
them together.
-/

namespace ClientGen
namespace Source

/-- `p` refuses the faces `s`: it gives no value and reports one diagnostic, of this code
and with this message. -/
def Refuses {α : Type} (p : Parser α) (s : List Face) (code : Code) (message : String) : Prop :=
  ∀ (c : Cursor) (after : List Face), c.faces = s ++ after →
    ∃ d c', p.run c = (none, c') ∧ c'.reporter = c.reporter.report d ∧
      d.code = code ∧ d.message = message

namespace Refuses

variable {α β : Type} {p : Parser α} {g : α → Parser β} {f : Face} {s t : List Face}
  {m : Option Face → Prop} {P : α → Prop} {code : Code} {message : String}

/-- Nothing is done after a refusal. -/
theorem first (hrefused : Refuses p s code message) : Refuses (p >>= g) s code message := by
  intro c after hspelled
  obtain ⟨d, c', hrun, hrest⟩ := hrefused c after hspelled
  exact ⟨d, c', by rw [Parser.run_bind, hrun], hrest⟩

/-- What stands behind a refusal is not seen. -/
theorem append (hrefused : Refuses p s code message) (t : List Face) :
    Refuses p (s ++ t) code message := by
  intro c after hspelled
  exact hrefused c (t ++ after) (by rw [hspelled, List.append_assoc])

/-- One production after another, the second of which refuses. -/
theorem bind (hread : Reads p s m P) (hlimit : ∀ o, m (t.head?.or o))
    (hrefused : ∀ a, P a → Refuses (g a) t code message) :
    Refuses (p >>= g) (s ++ t) code message := by
  intro c after hspelled
  have hnext : m (t ++ after).head? := by
    rw [List.head?_append]
    exact hlimit _
  obtain ⟨a, c₁, hrun₁, hvalue, hfaces₁, hreporter₁, -⟩ := hread c (t ++ after)
    (by rw [hspelled, List.append_assoc]) hnext
  obtain ⟨d, c₂, hrun₂, hreporter₂, hrest⟩ := hrefused a hvalue c₁ after hfaces₁
  refine ⟨d, c₂, ?_, by rw [hreporter₂, hreporter₁], hrest⟩
  rw [Parser.run_bind, hrun₁]
  exact hrun₂

/-- One token, then a refusal. -/
theorem token (hread : Reads p [f] anything P)
    (hrefused : ∀ a, P a → Refuses (g a) t code message) :
    Refuses (p >>= g) (f :: t) code message :=
  bind hread (fun _ => trivial) hrefused

/-- A look at the next token, then a refusal. -/
theorem ahead (hread : Reads p [] m P) (hlimit : ∀ o, m (t.head?.or o))
    (hrefused : ∀ a, P a → Refuses (g a) t code message) : Refuses (p >>= g) t code message :=
  bind hread hlimit hrefused

/-- A question about the next word, answered by the first face. -/
theorem askWord {words : List String} {g : Bool → Parser β} (b : Bool)
    (hstarts : s.head? = some f) (hanswer : f.isWord words = b)
    (hrefused : Refuses (g b) s code message) :
    Refuses (Parser.isWord words >>= g) s code message := by
  refine ahead (reads_isWord words b) (fun o => ?_) ?_
  · simp [hstarts, hanswer]
  · rintro _ rfl
    exact hrefused

/-- The first face tells which production refuses. -/
theorem byWord {otherwise q : Parser β} {productions : List (List String × Parser β)}
    {words : List String} (hstarts : s.head? = some f)
    (hlisted : productions.find? (fun production => f.isWord production.1) = some (words, q))
    (hrefused : Refuses q s code message) :
    Refuses (Parser.byWord otherwise productions) s code message := by
  induction productions with
  | nil => cases hlisted
  | cons production rest ih =>
    cases hword : f.isWord production.1 with
    | true =>
      simp only [List.find?_cons, hword] at hlisted
      obtain rfl := Option.some.inj hlisted
      exact askWord true hstarts hword hrefused
    | false =>
      simp only [List.find?_cons, hword] at hlisted
      exact askWord false hstarts hword (ih hlisted)

/-- The first face tells that no production is read, and the other one refuses. -/
theorem byWord_none {otherwise : Parser β} {productions : List (List String × Parser β)}
    (hstarts : s.head? = some f)
    (hnone : ∀ production ∈ productions, f.isWord production.1 = false)
    (hrefused : Refuses otherwise s code message) :
    Refuses (Parser.byWord otherwise productions) s code message := by
  induction productions with
  | nil => exact hrefused
  | cons production rest ih =>
    obtain ⟨hword, hrest⟩ := List.forall_mem_cons.mp hnone
    exact askWord false hstarts hword (ih hrest)

end Refuses

/-- A report, and no value. -/
theorem refuses_report {α : Type} (code : Code) (message : String) :
    Refuses (Parser.change (fun c => c.reportHere code message) >>= fun _ =>
      (Parser.giveUp : Parser α)) [] code message := by
  intro c after _
  exact ⟨_, c.reportHere code message, rfl, rfl, rfl, rfl⟩

/-! ## Repetition -/

section Loops

variable {α γ X : Type} {item : Parser α} {spell : X → List Face} {e : α → γ} {y : X → γ}
  {m : Option Face → Prop} {bad : List Face} {code : Code} {message : String}

/-- A loop reads items up to one that is refused. -/
theorem refuses_whileAux {again : Cursor → Bool} {g : Option Face → Bool}
    (hagain : ∀ c : Cursor, again c = g c.faces.head?) (xs : List X)
    (hitem : ∀ x ∈ xs, LoopItem item spell e y g m x)
    (hstarts : ∃ f ∈ bad.head?, g (some f) = true ∧ m (some f))
    (hrefused : Refuses item bad code message) (fuel : Nat) (henough : xs.length < fuel) :
    Refuses (Parser.whileAux again item fuel) (xs.flatMap spell ++ bad) code message := by
  induction xs generalizing fuel with
  | nil =>
    obtain ⟨fuel, rfl⟩ : ∃ k, fuel = k + 1 := ⟨fuel - 1, by simp at henough; omega⟩
    obtain ⟨f, hhead, hgoes, -⟩ := hstarts
    rw [Parser.whileAux]
    refine Refuses.ahead (reads_look_head hagain true) (fun o => ?_) ?_
    · simp [Option.mem_def.mp hhead, hgoes]
    · rintro _ rfl
      exact hrefused.first
  | cons x xs ih =>
    obtain ⟨fuel, rfl⟩ : ∃ k, fuel = k + 1 := ⟨fuel - 1, by simp at henough; omega⟩
    have hgood := hitem x List.mem_cons_self
    have hothers : ∀ z ∈ xs, LoopItem item spell e y g m z :=
      fun z h => hitem z (List.mem_cons_of_mem x h)
    have hrest := ih hothers fuel (by simp at henough; omega)
    obtain ⟨f, hhead, hgoes, -⟩ := hgood.starts
    rw [Parser.whileAux, List.flatMap_cons, List.append_assoc]
    refine Refuses.ahead (reads_look_head hagain true) (fun o => ?_) ?_
    · simp [List.head?_append, Option.mem_def.mp hhead, hgoes]
    rintro _ rfl
    refine Refuses.bind hgood.reads (fun o => ?_) fun b _ => hrest.first
    -- an item stops where the next one starts, which may be the refused one
    cases xs with
    | nil =>
      obtain ⟨f, hhead, -, hlimit⟩ := hstarts
      simpa [Option.mem_def.mp hhead] using hlimit
    | cons z zs =>
      rw [List.head?_append, Option.or_assoc]
      obtain ⟨f, hhead, -, hlimit⟩ :=
        (hothers z List.mem_cons_self).head_flatMap zs (bad.head?.or o)
      rwa [hhead]

theorem refuses_whileDo {again : Cursor → Bool} {g : Option Face → Bool}
    (hagain : ∀ c : Cursor, again c = g c.faces.head?) (xs : List X)
    (hitem : ∀ x ∈ xs, LoopItem item spell e y g m x)
    (hstarts : ∃ f ∈ bad.head?, g (some f) = true ∧ m (some f))
    (hrefused : Refuses item bad code message) :
    Refuses (Parser.whileDo again item) (xs.flatMap spell ++ bad) code message := by
  intro c after hspelled
  have henough : xs.length < c.rest.length + 1 := by
    have hitems := length_le_flatMap fun x h => (hitem x h).length_pos
    have htotal := congrArg List.length hspelled
    simp only [Cursor.faces, List.length_map, List.length_append] at htotal
    omega
  exact refuses_whileAux hagain xs hitem hstarts hrefused (c.rest.length + 1) henough c after
    hspelled

theorem refuses_upTo {close : TokenKind} (xs : List X)
    (hitem : ∀ x ∈ xs, LoopItem item spell e y (fun o => !o.any fun f => f.kind == close) m x)
    (hstarts : ∃ f ∈ bad.head?, f.kind ≠ close ∧ m (some f))
    (hrefused : Refuses item bad code message) :
    Refuses (Parser.upTo close item) (xs.flatMap spell ++ bad) code message := by
  obtain ⟨f, hhead, hopen', hlimit⟩ := hstarts
  refine (refuses_whileDo (fun c => ?_) xs hitem ⟨f, hhead, ?_, hlimit⟩ hrefused).first
  · rw [Cursor.is_eq]
  · simpa using hopen'

end Loops

end Source
end ClientGen
