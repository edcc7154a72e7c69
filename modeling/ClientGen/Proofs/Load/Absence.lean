import ClientGen.Files.Tree
import ClientGen.Proofs.Load.Cache
import ClientGen.Proofs.Source.Failure

/-! # Files without a document

Two kinds of files have no document and do not fail either: a descriptor and a file that
cannot be read, each where the code of the one diagnostic about it is not fatal. Loading takes
the missing document for a failure of its own, and this is the only way to that failure
(`compileFile_eq_none_iff`, `loadAll_error`).
-/

namespace ClientGen

open Source (Failure Diagnostic Code Reporter)

namespace Files

/-! ## What file systems say -/

/-- What opening a path gives in a file system: a file, perhaps with others, each of which
says by a diagnostic why it cannot be read, or a diagnostic. -/
inductive Opened : Except Failure (List SourceFile) → Prop where
  | files {f : SourceFile} {rest : List SourceFile}
      (hunopened : ∀ g ∈ f :: rest, ∀ e, g.body = .unopened e → ∃ d, e = .diagnostic d) :
      Opened (.ok (f :: rest))
  | refused (d : Diagnostic) : Opened (.error (.diagnostic d))

/-- A file system whose failures are all diagnostics. -/
def System.Diagnosing (s : System) : Prop := ∀ uri, Opened (s.openAt uri)

theorem Memory.diagnosing (m : Memory) : m.system.Diagnosing := by
  intro uri
  have htext : ∀ g ∈ m.beneath (Path.rooted uri), ∀ e, g.body = .unopened e →
      ∃ d, e = .diagnostic d := by
    intro g hg e hbody
    obtain ⟨entry, -, rfl⟩ := List.mem_map.mp hg
    cases hbody
  change Opened (m.openAt uri)
  unfold Memory.openAt
  dsimp only
  split
  · refine .files fun g hg e hbody => ?_
    obtain rfl := List.mem_singleton.mp hg
    cases hbody
  · cases hbeneath : m.beneath (Path.rooted uri) with
    | nil => exact .refused _
    | cons f rest => exact .files (hbeneath ▸ htext)

theorem Tree.body_ne_unopened (path : String) (entry : Entry) (e : Failure) :
    Tree.body path entry ≠ .unopened e := by
  cases entry with
  | file text interruption => cases interruption <;> exact nofun
  | directory children => exact nofun

theorem Tree.diagnosing (tree : Tree) (bound : Nat) (wanted : String → Bool) :
    (tree.system bound wanted).Diagnosing := by
  intro uri
  change Opened (tree.openAt wanted uri)
  unfold Tree.openAt
  dsimp only
  split
  · exact .refused _
  · exact .refused _
  · refine .files fun g hg e hbody => ?_
    obtain rfl := List.mem_singleton.mp hg
    exact absurd hbody (Tree.body_ne_unopened _ _ e)
  · exact .refused _
  · generalize hfiles : tree.childFiles _ _ = x
    cases x with
    | error e =>
        obtain ⟨name, -, hname⟩ := Source.error_of_mapM hfiles
        dsimp only at hname
        split at hname
        · cases hname
          exact .refused _
        · cases hname
    | ok files =>
        cases files with
        | nil => exact .refused _
        | cons f rest =>
            refine .files fun g hg e hbody => ?_
            obtain ⟨name, -, hname⟩ := Source.mem_of_mapM hfiles hg
            dsimp only at hname
            split at hname
            · cases hname
            · obtain rfl := Except.ok.inj hname
              exact absurd hbody (Tree.body_ne_unopened _ _ e)

theorem System.diagnosing_firstOf {systems : List System} (h : ∀ s ∈ systems, s.Diagnosing) :
    (System.firstOf systems).Diagnosing := by
  intro uri
  unfold System.firstOf
  dsimp only
  split
  · rename_i files hfound
    obtain ⟨s, hs, hopen⟩ := List.exists_of_findSome?_eq_some hfound
    rw [← Source.ok_of_toOption hopen]
    exact h s hs uri
  · exact .refused _

end Files

namespace Load

open Files (SourceFile)

/-! ## Compiling one file -/

/-- A file that has neither a document nor a failure: the one diagnostic about it has a code
that is not fatal. -/
inductive Silenced (codes : List Code) (f : SourceFile) : Prop where
  | descriptor (hkind : f.kind = .descriptor) (harmless : Code.unsupportedFormat ∈ codes)
  | unreadable {e : Failure} (hkind : f.kind = .none) (hunread : f.read = .error e)
      (harmless : Code.unknownFatal ∈ codes)

section Compiling

variable {f : SourceFile} {revise : Bool} {r : Reporter} {e : Failure}

theorem reportOnly_eq_none_iff (d : Diagnostic) :
    (reportOnly d r).1 = .ok none ↔ d.code ∈ r.nonfatal := by
  by_cases hd : d.code ∈ r.nonfatal <;> simp [reportOnly, Reporter.isFatal, hd]

theorem reportOnly_error {d : Diagnostic} (h : (reportOnly d r).1 = .error e) :
    e = .diagnostic d := by
  unfold reportOnly at h
  split at h
  · exact (Except.error.inj h).symm
  · cases h

theorem map_some_ne_none (x : Except Failure Document) : x.map some ≠ .ok none := by
  cases x <;> exact nofun

theorem not_silenced {codes : List Code} (hdescriptor : f.kind ≠ .descriptor)
    (hnone : f.kind ≠ .none) : ¬ Silenced codes f := by
  rintro (⟨hkind⟩ | ⟨hkind⟩)
  · exact hdescriptor hkind
  · exact hnone hkind

theorem compileFile_eq_none_iff :
    (compileFile f revise r).1 = .ok none ↔ Silenced r.nonfatal f := by
  unfold compileFile
  dsimp only
  cases hkind : f.kind with
  | thrift =>
      exact iff_of_false (map_some_ne_none _) (not_silenced (by simp [hkind]) (by simp [hkind]))
  | protobuf =>
      exact iff_of_false (map_some_ne_none _) (not_silenced (by simp [hkind]) (by simp [hkind]))
  | descriptor =>
      refine (reportOnly_eq_none_iff _).trans ⟨.descriptor hkind, fun h => ?_⟩
      cases h with
      | descriptor _ harmless => exact harmless
      | unreadable hkind' => simp [hkind] at hkind'
  | none =>
      cases hread : f.read with
      | ok s =>
          refine iff_of_false (map_some_ne_none _) fun h => ?_
          cases h with
          | descriptor hkind' => simp [hkind] at hkind'
          | unreadable _ hunread => simp [hread] at hunread
      | error e =>
          refine (reportOnly_eq_none_iff _).trans ⟨.unreadable hkind hread, fun h => ?_⟩
          cases h with
          | descriptor hkind' => simp [hkind] at hkind'
          | unreadable _ _ harmless => exact harmless

theorem parseText_error {dialect : Dialect} {path text : String}
    (h : (parseText dialect path text revise r).1 = .error e) : ∃ d, e = .diagnostic d := by
  rw [parseText_eq] at h
  dsimp only [Language.conclude] at h
  split at h
  · cases h
  · exact ⟨_, (Except.error.inj h).symm⟩

theorem parseFile_error {dialect : Dialect}
    (hf : ∀ e, f.body = .unopened e → ∃ d, e = .diagnostic d)
    (h : (parseFile dialect f revise r).1 = .error e) : ∃ d, e = .diagnostic d := by
  unfold parseFile at h
  cases hbody : f.body with
  | text s =>
      rw [hbody] at h
      exact parseText_error h
  | unopened e' =>
      rw [hbody] at h
      obtain rfl : e' = e := Except.error.inj h
      exact hf e' hbody
  | interrupted s e' =>
      rw [hbody] at h
      exact ⟨_, (Except.error.inj h).symm⟩

theorem error_of_map_some {x : Except Failure Document} (h : x.map some = .error e) :
    x = .error e := by
  cases x with
  | error e' => exact congrArg Except.error (Except.error.inj h)
  | ok d => cases h

/-- A file that can be opened fails with a diagnostic. -/
theorem compileFile_error (hf : ∀ e, f.body = .unopened e → ∃ d, e = .diagnostic d)
    (h : (compileFile f revise r).1 = .error e) : ∃ d, e = .diagnostic d := by
  unfold compileFile at h
  dsimp only at h
  split at h
  · exact parseFile_error hf (error_of_map_some h)
  · exact parseFile_error hf (error_of_map_some h)
  · exact ⟨_, reportOnly_error h⟩
  · split at h
    · exact parseText_error (error_of_map_some h)
    · exact ⟨_, reportOnly_error h⟩

end Compiling

/-! ## Runs that fail -/

section Runs

variable {l : Loader} {codes : List Code} {entries : List String} {w w' : Walk} {e : Failure}

/-- Why there is no document at a target. -/
theorem documentAt_error {uri : String} (hl : l.system.Diagnosing)
    (h : l.documentAt codes uri = .error e) :
    (∃ d, e = .diagnostic d) ∨
      (e = .absentDocument ∧
        ∃ f rest, l.system.openAt uri = .ok (f :: rest) ∧ Silenced codes f) := by
  have hopened := hl uri
  unfold Loader.documentAt at h
  cases hopen : l.system.openAt uri with
  | error e' =>
      rw [hopen] at h hopened
      obtain rfl : e' = e := Except.error.inj h
      cases hopened with
      | refused d => exact .inl ⟨d, rfl⟩
  | ok files =>
      rw [hopen] at h hopened
      cases hopened with
      | @files f rest hunopened =>
          dsimp only at h
          split at h
          · rename_i e' hcompile
            obtain rfl : e' = e := Except.error.inj h
            exact .inl (compileFile_error (hunopened f List.mem_cons_self) hcompile)
          · rename_i hcompile
            have hf : Silenced codes f := compileFile_eq_none_iff.mp hcompile
            exact .inr ⟨(Except.error.inj h).symm, f, rest, rfl, hf⟩
          · cases h

/-- How a run stops: it has come by moves to a target that has no document, or to an include
that means no file where that is fatal. -/
inductive Stops (l : Loader) (codes : List Code) (entries : List String) (w : Walk) (e : Failure) :
    Prop where
  | target {w₁ : Walk} {uri : String} (hmoves : Moves l codes entries w w₁)
      (hmeant : uri ∈ l.named entries w₁.docs) (hfound : l.documentAt codes uri = .error e)
  | missing {w₁ : Walk} {source path : String} (hmoves : Moves l codes entries w w₁)
      (habsent : l.target? source path = none)
      (hunresolved : e = .diagnostic (Loader.unresolvedInclude source path))

theorem Stops.after {w₁ : Walk} (h : Stops l codes entries w₁ e)
    (hmoves : Moves l codes entries w w₁) : Stops l codes entries w e := by
  cases h with
  | target hbefore hmeant hfound => exact .target (hmoves.trans hbefore) hmeant hfound
  | missing hbefore habsent hunresolved => exact .missing (hmoves.trans hbefore) habsent hunresolved

theorem followIncludes_stops {visit : Nat → Step Unit} {source : String} {paths : List String}
    (hvisit : ∀ n w w', w.Sound l codes → visit n w = (.ok (), w') → Moves l codes entries w w')
    (hstops : ∀ n w w' e, w.Sound l codes → (w.parsed[n]?).isSome → visit n w = (.error e, w') →
      Stops l codes entries w e)
    (hmeant : ∀ path ∈ paths, ∀ uri ∈ l.target? source path, uri ∈ l.named entries w.docs)
    (hw : w.Sound l codes) (h : l.followIncludes visit source paths w = (.error e, w')) :
    Stops l codes entries w e := by
  induction paths generalizing w with
  | nil => cases h
  | cons path rest ih =>
      have hlater {w₁ : Walk} (hmoves : Moves l codes entries w w₁)
          (hrest : l.followIncludes visit source rest w₁ = (.error e, w')) :
          Stops l codes entries w e := by
        refine (ih ?_ (Moves.sound hmoves hw) hrest).after hmoves
        exact fun path' hpath' uri huri => Moves.named_subset hmoves hw
          (hmeant path' (List.mem_cons_of_mem path hpath') uri huri)
      rw [Loader.followIncludes, hw.resolve?] at h
      cases htarget : l.target? source path with
      | none =>
          simp only [htarget] at h
          split at h
          · cases h
            exact .missing .refl htarget rfl
          · exact hlater (.single (.miss source path)) h
      | some uri =>
          simp only [htarget] at h
          have hnamed := hmeant path List.mem_cons_self uri htarget
          split at h
          · rename_i e' w₁ hload
            cases h
            exact .target .refl hnamed (hw.loads hload).error
          · rename_i n w₁ hload
            have hloads := hw.loads hload
            have hmove : Move l codes entries w w₁ := .load hnamed hloads
            have hw₁ := hmove.sound hw
            obtain ⟨d, hknown, -⟩ := hloads.document
            split at h
            · rename_i e' w₂ hrun
              cases h
              exact (hstops n w₁ _ e hw₁ (by simp [hknown]) hrun).after (.single hmove)
            · rename_i w₂ hrun
              exact hlater (.head hmove (hvisit n w₁ w₂ hw₁ hrun)) h

theorem visit_stops {fuel n : Nat} (hw : w.Sound l codes) (hknown : (w.parsed[n]?).isSome)
    (h : l.visit fuel n w = (.error e, w')) : Stops l codes entries w e := by
  induction fuel generalizing n w w' e with
  | zero => cases h
  | succ fuel ih =>
      obtain ⟨d, hparsed⟩ := Option.isSome_iff_exists.mp hknown
      rw [Loader.visit] at h
      simp only [hparsed] at h
      split at h
      · cases h
      · rename_i hseen
        have hmove : Move l codes entries w (w.enter n d.path) :=
          .enter hparsed (by simpa using hseen)
        refine (followIncludes_stops (fun _ _ _ => visit_moves) (fun _ _ _ _ => ih) ?_
          (hmove.sound hw) h).after (.single hmove)
        intro path hpath uri huri
        rw [Walk.docs_enter hparsed]
        refine List.mem_append_right _ (List.mem_flatMap.mpr ⟨d, by simp, ?_⟩)
        exact List.mem_filterMap.mpr ⟨path, hpath, huri⟩

theorem visitEntries_stops {pending : List String} (hgiven : pending ⊆ entries)
    (hw : w.Sound l codes) (h : l.visitEntries pending w = (.error e, w')) :
    Stops l codes entries w e := by
  induction pending generalizing w with
  | nil => cases h
  | cons entry rest ih =>
      have hentry : entry ∈ entries := hgiven List.mem_cons_self
      have hnamed : Target.normalize entry ∈ l.named entries w.docs :=
        List.mem_append_left _ (List.mem_map_of_mem hentry)
      rw [Loader.visitEntries] at h
      split at h
      · rename_i e' w₁ hload
        cases h
        exact .target .refl hnamed (hw.loads hload).error
      · rename_i n w₁ hload
        have hloads := hw.loads hload
        have hmove : Move l codes entries w w₁ := .load hnamed hloads
        obtain ⟨d, hknown, hfound⟩ := hloads.document
        have hmark : Move l codes entries w₁ (Loader.markEntry n w₁) := .mark hentry hknown hfound
        have hmarked := hmark.sound (hmove.sound hw)
        have hstart : Moves l codes entries w (Loader.markEntry n w₁) :=
          .head hmove (.single hmark)
        split at h
        · rename_i e' w₂ hrun
          cases h
          refine (visit_stops hmarked ?_ hrun).after hstart
          simp [Walk.getElem?_markEntry, hknown]
        · rename_i w₂ hrun
          have hmoves := hstart.trans (visit_moves hmarked hrun)
          exact (ih (fun x hx => hgiven (List.mem_cons_of_mem entry hx))
            (Moves.sound hmoves hw) h).after hmoves

/-- Where the first entry has no document and no failure, loading fails. -/
theorem loadAll_of_silenced {size : Nat} {r : Reporter} {entry : String} {rest : List String}
    {f : SourceFile} {files : List SourceFile}
    (hopen : l.system.openAt (Target.normalize entry) = .ok (f :: files))
    (hf : Silenced r.nonfatal f) :
    (l.loadAll size (entry :: rest) r).docs = .error .absentDocument := by
  have hat : l.documentAt r.nonfatal (Target.normalize entry) = .error .absentDocument := by
    rw [Loader.documentAt_of_open hopen,
      (compileFile_eq_none_iff (r := { nonfatal := r.nonfatal })).mpr hf]
  rw [docs_loadAll, Loader.visitEntries]
  cases hload : l.load (Target.normalize entry) (Walk.start size r) with
  | mk x w =>
      have hloads := (Walk.Sound.start l size r).loads hload
      cases x with
      | error e =>
          rw [hloads.error] at hat
          exact congrArg Except.error (Except.error.inj hat)
      | ok n =>
          obtain ⟨d, -, hd⟩ := hloads.document
          simp [hd] at hat

end Runs

/-- No code that is harmless by default silences a file. -/
theorem not_silenced_harmless (f : SourceFile) : ¬ Silenced Code.harmless f := by
  rintro (⟨-, hcode⟩ | ⟨-, -, hcode⟩) <;> revert hcode <;> decide

/-- When compiling gives nothing. A file has neither a document nor a failure exactly if it is
a descriptor, or a file of no known kind that cannot be read, and the code of this is not fatal.
From any file system loading fails with a diagnostic or else because it came to such a file,
and it does fail if the first entry is one; with the codes that are harmless by default there
is none. -/
theorem loadAll_error (l : Loader) (hl : l.system.Diagnosing) (size : Nat) (entries : List String)
    (r : Reporter) :
    (∀ f revise, (compileFile f revise r).1 = .ok none ↔ Silenced r.nonfatal f) ∧
      (∀ e, (l.loadAll size entries r).docs = .error e →
        (∃ d, e = .diagnostic d) ∨
          e = .absentDocument ∧ ∃ w uri f rest,
            Moves l r.nonfatal entries (Walk.start size r) w ∧ uri ∈ l.named entries w.docs ∧
              l.system.openAt uri = .ok (f :: rest) ∧ Silenced r.nonfatal f) ∧
      (∀ entry others f rest, entries = entry :: others →
        l.system.openAt (Target.normalize entry) = .ok (f :: rest) → Silenced r.nonfatal f →
        (l.loadAll size entries r).docs = .error .absentDocument) ∧
      ∀ f, ¬ Silenced Code.harmless f := by
  refine ⟨fun f revise => compileFile_eq_none_iff, fun e h => ?_, ?_, not_silenced_harmless⟩
  · have hrun : (l.visitEntries entries (Walk.start size r)).1 = .error e := by
      rw [docs_loadAll] at h
      generalize (l.visitEntries entries (Walk.start size r)).1 = x at h
      cases x with
      | error e' => exact congrArg Except.error (Except.error.inj h)
      | ok _ => cases h
    have hstops : Stops l r.nonfatal entries (Walk.start size r) e :=
      visitEntries_stops (List.Subset.refl _) (.start l size r) (Prod.ext hrun rfl)
    cases hstops with
    | missing hmoves habsent hunresolved => exact .inl ⟨_, hunresolved⟩
    | target hmoves hmeant hfound =>
        rcases documentAt_error hl hfound with hdiagnostic | ⟨rfl, f, rest, hopen, hf⟩
        · exact .inl hdiagnostic
        · exact .inr ⟨rfl, _, _, f, rest, hmoves, hmeant, hopen, hf⟩
  · rintro entry others f rest rfl hopen hf
    exact loadAll_of_silenced hopen hf

/-! A descriptor where its code is not fatal. -/

def descriptorOnly : Files.Memory := .ofList [("a.protoset", "x")]

theorem loadAll_error_descriptor :
    let l := Loader.ofMemory descriptorOnly true
    let r := Reporter.withHarmless [Code.unsupportedFormat]
    l.system.Diagnosing ∧
      (l.loadAll defaultCacheSize ["a.protoset"] r).docs = .error .absentDocument ∧
      ∃ w, Moves l r.nonfatal ["a.protoset"] (Walk.start defaultCacheSize r) w := by
  intro l r
  have hl : l.system.Diagnosing := descriptorOnly.diagnosing
  obtain ⟨-, hfails, hfirst, -⟩ := loadAll_error l hl defaultCacheSize ["a.protoset"] r
  have hsilenced : Silenced r.nonfatal (.ofText "/a.protoset" "x" .descriptor) :=
    .descriptor rfl (by decide)
  have hdocs := hfirst "a.protoset" [] _ [] rfl rfl hsilenced
  obtain ⟨d, hd⟩ | ⟨-, w, -, -, -, hmoves, -⟩ := hfails _ hdocs
  · cases hd
  · exact ⟨hl, hdocs, w, hmoves⟩

/-- A file may be compiled to nothing: the kind of the file has no compiler, and the report
about it is the failure only if its code is fatal. Loading then finds no document. -/
theorem descriptor_compiled_to_nothing :
    let f := SourceFile.ofText "a.protoset" "x" .descriptor
    let r := Reporter.withHarmless [Code.unsupportedFormat]
    (compileFile f true r).1 = .ok none ∧
      ((Loader.ofMemory descriptorOnly true).loadAll defaultCacheSize ["a.protoset"] r).docs =
        .error .absentDocument :=
  ⟨rfl, rfl⟩

end Load
end ClientGen
