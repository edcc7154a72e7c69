import ClientGen.Proofs.Generate.Modules

/-! # Runs that fail

A run renders everything before it writes anything, but each file passes its stage
only when its turn to be written has come. So a run that fails although its sink took
every write has left the sink as it was, unless the stage of some file failed: then
the files in front of that one are written (`sink_of_failed`), which may be some
(`written_before_failure`).
-/

namespace ClientGen
namespace Generate

open Pipeline
open Source (Failure)

variable {σ : Type}

/-- What a run has before it writes: the bus and what was rendered, or a failure with
the warnings up to it. -/
def planned (o : Options) (origin : Origin) :
    Except (Failure × List Warning) (Bus Stage × Run) :=
  if o.entries.isEmpty then .error (.plain "no entries to generate", [])
  else
    match prepare o with
    | .error f => .error (f, [])
    | .ok (types, bus) =>
      match render o origin types bus { registry := some { types } } with
      | (.error f, r) => .error (f, r.warnings)
      | (.ok (), r) => .ok (bus, r)

/-- The run into a sink is its plan, and then writing. -/
theorem generate_eq_planned (o : Options) (origin : Origin) (sink : Sink σ) (s : σ) :
    generate o origin (some sink) s =
      match planned o origin with
      | .error (f, warnings) => { result := .error f, sink := s, warnings }
      | .ok (bus, r) =>
        let (result, r', s') := writeAll bus sink r.output.sorted {} r s
        { result, sink := s', warnings := r'.warnings } := by
  unfold generate planned
  split
  · rfl
  · cases hprepare : prepare o with
    | error f => rfl
    | ok pair =>
        obtain ⟨types, bus⟩ := pair
        cases hrender : render o origin types bus { registry := some { types } } with
        | mk result r => cases result <;> simp only [hrender]

/-! ## The stage of written files -/

/-- The text of a file after its stage, which handles it if anything does. -/
def passStage (bus : Bus Stage) (file : String × String) (r : Run) : Except Failure String × Run :=
  let (staged, r) :=
    if bus.has Stage.writeFileHook then
      Stage.runWriteFile bus { filename := file.1, content := file.2 } r
    else (.ok { filename := file.1, content := file.2 }, r)
  (staged.map (·.content), r)

theorem writeAll_cons (bus : Bus Stage) (sink : Sink σ) (file : String × String)
    (rest : List (String × String)) (done : Written) (r : Run) (s : σ) :
    writeAll bus sink (file :: rest) done r s =
      match passStage bus file r with
      | (.error f, r) => (.error f, r, s)
      | (.ok text, r) =>
        match sink.write file.1 text s with
        | (.error f, s) => (.error (.context ("write " ++ file.1) f), r, s)
        | (.ok (), s) =>
          writeAll bus sink rest
            { paths := done.paths ++ [file.1], bytes := done.bytes + text.utf8ByteSize } r s := by
  conv_lhs => unfold writeAll
  unfold passStage
  generalize (if bus.has Stage.writeFileHook = true then
    Stage.runWriteFile bus { filename := file.1, content := file.2 } r
    else (.ok { filename := file.1, content := file.2 }, r)) = x
  obtain ⟨staged, r'⟩ := x
  cases staged with
  | error f => rfl
  | ok c => rfl

/-- Files that pass their stage one after the other, and their texts after it. -/
inductive Staged (bus : Bus Stage) :
    List (String × String) → Run → List (String × String) → Run → Prop where
  | nil (r : Run) : Staged bus [] r [] r
  | cons {file : String × String} {text : String} {rest texts : List (String × String)}
      {r r₁ r₂ : Run} (h : passStage bus file r = (.ok text, r₁))
      (hrest : Staged bus rest r₁ texts r₂) :
      Staged bus (file :: rest) r ((file.1, text) :: texts) r₂

/-- Some files pass their stage, and the one behind them does not. -/
def Halted (bus : Bus Stage) (files : List (String × String)) (r : Run) (f : Failure)
    (texts : List (String × String)) : Prop :=
  ∃ written file rest r₁ r₂, files = written ++ file :: rest ∧
    Staged bus written r texts r₁ ∧ passStage bus file r₁ = (.error f, r₂)

namespace Halted

variable {bus : Bus Stage} {file : String × String} {rest texts : List (String × String)}
  {text : String} {r r₁ : Run} {f : Failure}

theorem here (h : passStage bus file r = (.error f, r₁)) : Halted bus (file :: rest) r f [] :=
  ⟨[], file, rest, r, r₁, rfl, .nil r, h⟩

theorem later (h : passStage bus file r = (.ok text, r₁)) (hrest : Halted bus rest r₁ f texts) :
    Halted bus (file :: rest) r f ((file.1, text) :: texts) := by
  obtain ⟨written, last, more, r₂, r₃, rfl, hstaged, hfails⟩ := hrest
  exact ⟨file :: written, last, more, r₂, r₃, rfl, .cons h hstaged, hfails⟩

end Halted

/-! ## Watching a sink -/

/-- A sink together with the failures of its writes. -/
def Sink.watched (sink : Sink σ) : Sink (σ × List Failure) where
  write path text s :=
    match sink.write path text s.1 with
    | (.ok (), s') => (.ok (), (s', s.2))
    | (.error f, s') => (.error f, (s', s.2 ++ [f]))

/-- Watching a sink changes neither the result nor what is written. -/
theorem writeAll_watched (bus : Bus Stage) (sink : Sink σ) (files : List (String × String))
    (done : Written) (r : Run) (s : σ) (failures : List Failure) :
    ∃ failures', writeAll bus sink.watched files done r (s, failures) =
      ((writeAll bus sink files done r s).1, (writeAll bus sink files done r s).2.1,
        ((writeAll bus sink files done r s).2.2, failures')) := by
  induction files generalizing done r s with
  | nil => exact ⟨failures, rfl⟩
  | cons file rest ih =>
      rw [writeAll_cons, writeAll_cons]
      cases hstage : passStage bus file r with
      | mk staged r₁ =>
          cases staged with
          | error f => exact ⟨failures, rfl⟩
          | ok text =>
              cases hwrite : sink.write file.1 text s with
              | mk result s₁ =>
                  simp only [Sink.watched, hwrite]
                  cases result with
                  | error f => exact ⟨failures ++ [f], rfl⟩
                  | ok _ => exact ih _ r₁ s₁

/-- Writing that fails although the sink took every write halted at a stage. -/
theorem halted_of_writeAll {bus : Bus Stage} {sink : Sink σ} {files : List (String × String)}
    {done : Written} {r r' : Run} {f : Failure} {s : σ} {s' : σ × List Failure}
    (h : writeAll bus sink.watched files done r (s, []) = (.error f, r', s')) (hs : s'.2 = []) :
    ∃ texts, Halted bus files r f texts ∧ s'.1 = sink.after texts s := by
  induction files generalizing done r s with
  | nil => cases (Prod.mk.inj h).1
  | cons file rest ih =>
      rw [writeAll_cons] at h
      cases hstage : passStage bus file r with
      | mk staged r₁ =>
          rw [hstage] at h
          cases staged with
          | error g =>
              obtain ⟨hg, hrest⟩ := Prod.mk.inj h
              obtain ⟨rfl, rfl⟩ := Prod.mk.inj hrest
              obtain rfl := Except.error.inj hg
              exact ⟨[], .here hstage, rfl⟩
          | ok text =>
              cases hwrite : sink.write file.1 text s with
              | mk result s₁ =>
                  simp only [Sink.watched, hwrite] at h
                  cases result with
                  | error g =>
                      obtain ⟨-, hrest⟩ := Prod.mk.inj h
                      obtain ⟨-, rfl⟩ := Prod.mk.inj hrest
                      simp at hs
                  | ok _ =>
                      obtain ⟨texts, hhalted, hafter⟩ := ih h
                      refine ⟨(file.1, text) :: texts, .later hstage hhalted, ?_⟩
                      simpa [Sink.after, hwrite] using hafter

theorem generate_watched (o : Options) (origin : Origin) (sink : Option (Sink σ)) (s : σ) :
    (generate o origin (sink.map Sink.watched) (s, [])).result =
        (generate o origin sink s).result ∧
      (generate o origin (sink.map Sink.watched) (s, [])).sink.1 =
        (generate o origin sink s).sink := by
  cases sink with
  | none =>
      unfold generate
      split <;> exact ⟨rfl, rfl⟩
  | some sink =>
      rw [Option.map_some, generate_eq_planned, generate_eq_planned]
      cases planned o origin with
      | error failed => exact ⟨rfl, rfl⟩
      | ok plan =>
          obtain ⟨failures, hwatched⟩ :=
            writeAll_watched plan.1 sink plan.2.output.sorted {} plan.2 s []
          dsimp only
          rw [hwatched]
          exact ⟨rfl, rfl⟩

/-- A run that fails although its sink took every write leaves the sink as it was, but
for this: if the stage of a file fails, the files in front of it are written, as they
came out of their stage. -/
theorem sink_of_failed (o : Options) (origin : Origin) (sink : Option (Sink σ)) (s : σ)
    {f : Failure} (h : (generate o origin sink s).result = .error f)
    (hsink : (generate o origin (sink.map Sink.watched) (s, [])).sink.2 = []) :
    (generate o origin sink s).sink = s ∨
      ∃ k bus r texts, sink = some k ∧ planned o origin = .ok (bus, r) ∧
        Halted bus r.output.sorted r f texts ∧ texts ≠ [] ∧
        (generate o origin sink s).sink = k.after texts s := by
  obtain ⟨hresult, hstate⟩ := generate_watched o origin sink s
  rw [← hresult] at h
  rw [← hstate]
  cases sink with
  | none =>
      left
      unfold generate
      split <;> rfl
  | some k =>
      rw [Option.map_some, generate_eq_planned] at h hsink ⊢
      cases hplan : planned o origin with
      | error failed => exact .inl rfl
      | ok plan =>
          obtain ⟨bus, r⟩ := plan
          rw [hplan] at h hsink
          obtain ⟨texts, hhalted, hafter⟩ := halted_of_writeAll (Prod.ext h rfl) hsink
          cases texts with
          | nil => exact .inl hafter
          | cons text texts =>
              exact .inr ⟨k, bus, r, text :: texts, rfl, rfl, hhalted, by simp, hafter⟩

def brittle : Plugin Stage :=
  let handler : Stage := .writeFile fun c r =>
    (if c.filename = "a/index.ts" then .error (.plain "unhandled") else .ok c, r)
  { name := "brittle", registrations := [handler.registration "ON" 0] }

/-- Options with which the types are written before the index. -/
def brittleOptions : Options :=
  { entries := [("a", "a.thrift")], typesDirectory := "A", plugins := [brittle] }

def brittleOrigin : Origin := .ofFiles [("a.thrift", "")]

theorem planned_brittle :
    ((planned brittleOptions brittleOrigin).toOption.map fun (bus, r) =>
      let (result, _, s) := writeAll bus Sink.memories.watched r.output {} r ([{}], [])
      ([decide (r.output.Pairwise fun a b => decide (a.1 ≤ b.1) = true), result.isOk, s.2.isEmpty],
        s.1.flatMap (·.files.keys))) = some ([true, false, true], ["/A/a/types.ts"]) := by
  decide +kernel

/-- The first file is written, and the second one does not pass its stage. -/
theorem generate_brittle :
    (∃ f, (generate brittleOptions brittleOrigin (some .memories) [{}]).result = .error f) ∧
      (generate brittleOptions brittleOrigin (some Sink.memories.watched) ([{}], [])).sink.2 = [] ∧
      (generate brittleOptions brittleOrigin (some .memories) [{}]).sink.flatMap (·.files.keys) =
        ["/A/a/types.ts"] := by
  obtain ⟨⟨bus, r⟩, hplan, hrun⟩ := Option.map_eq_some_iff.mp planned_brittle
  have hplanned : planned brittleOptions brittleOrigin = .ok (bus, r) := by
    cases h : planned brittleOptions brittleOrigin with
    | error failed => simp [h, Except.toOption] at hplan
    | ok plan => simpa [h, Except.toOption] using hplan
  obtain ⟨hfacts, hkeys⟩ := Prod.mk.inj hrun
  simp only [List.cons.injEq, decide_eq_true_eq, and_true] at hfacts
  obtain ⟨hpairwise, hfails, hempty⟩ := hfacts
  have hsorted : r.output.sorted = r.output :=
    List.mergeSort_of_pairwise (by simpa using hpairwise)
  obtain ⟨hresult, hsink⟩ :=
    generate_watched brittleOptions brittleOrigin (some .memories) [{}]
  rw [← hresult, ← hsink, Option.map_some, generate_eq_planned, hplanned]
  simp only [hsorted]
  refine ⟨?_, List.isEmpty_iff.mp hempty, hkeys⟩
  cases hwritten : (writeAll bus Sink.memories.watched r.output {} r ([{}], [])).1 with
  | error f => exact ⟨f, rfl⟩
  | ok written =>
      rw [hwritten] at hfails
      cases hfails

theorem sink_of_failed_brittle :
    ∃ f, (generate brittleOptions brittleOrigin (some .memories) [{}]).result = .error f ∧
      ∃ bus r texts, planned brittleOptions brittleOrigin = .ok (bus, r) ∧
        Halted bus r.output.sorted r f texts ∧ texts ≠ [] ∧
        (generate brittleOptions brittleOrigin (some .memories) [{}]).sink =
          Sink.memories.after texts [{}] := by
  obtain ⟨⟨f, hf⟩, hsink, hkeys⟩ := generate_brittle
  refine ⟨f, hf, ?_⟩
  rcases sink_of_failed brittleOptions brittleOrigin (some .memories) [{}] hf hsink with
    hsame | ⟨k, bus, r, texts, hk, hplanned, hhalted, hne, hafter⟩
  · rw [hsame] at hkeys
    cases hkeys
  · obtain rfl := Option.some.inj hk
    exact ⟨bus, r, texts, hplanned, hhalted, hne, hafter⟩

/-- A run may fail after some files were written, though every write was taken. -/
theorem written_before_failure :
    (generate brittleOptions brittleOrigin (some .memories) [{}]).result.isOk = false ∧
      (generate brittleOptions brittleOrigin (some Sink.memories.watched) ([{}], [])).sink.2 = [] ∧
      (generate brittleOptions brittleOrigin (some .memories) [{}]).sink ≠ [{}] := by
  obtain ⟨⟨f, hf⟩, hsink, hkeys⟩ := generate_brittle
  refine ⟨by rw [hf]; rfl, hsink, fun hsame => ?_⟩
  rw [hsame] at hkeys
  cases hkeys

end Generate
end ClientGen
