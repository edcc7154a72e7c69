import ClientGen.Files.Memory
import ClientGen.Proofs.Load.Walk
import ClientGen.Proofs.Source.Failure
import Mathlib.Data.List.Perm.Basic

/-! # What entries include

Loading some entries of a file system in memory gives the documents that they lead
to, depth first and each path once, and one report for each include that means no
file (`loadAll_depthFirst`).
-/

namespace ClientGen
namespace Load

open Source (Reporter Failure Code Diagnostic)

/-! ## Depth first -/

/-- `out` lists what `todo` leads to, depth first: a node before what comes next to
it, and that before the rest of `todo`. Nodes that were seen are passed over. -/
inductive DepthFirst {α : Type} (next : α → List α) : List α → List α → List α → Prop where
  | done (seen : List α) : DepthFirst next seen [] []
  | skip {seen todo out : List α} {a : α} (ha : a ∈ seen) (h : DepthFirst next seen todo out) :
      DepthFirst next seen (a :: todo) out
  | visit {seen todo out : List α} {a : α} (ha : a ∉ seen)
      (h : DepthFirst next (a :: seen) (next a ++ todo) out) :
      DepthFirst next seen (a :: todo) (a :: out)

namespace DepthFirst

variable {α : Type} {next : α → List α} {seen todo out : List α}

theorem fresh (h : DepthFirst next seen todo out) : out.Nodup ∧ ∀ a ∈ out, a ∉ seen := by
  induction h with
  | done seen => exact ⟨List.nodup_nil, by simp⟩
  | skip _ _ ih => exact ih
  | @visit seen todo out a ha _ ih =>
      obtain ⟨hnodup, hfresh⟩ := ih
      refine ⟨List.nodup_cons.mpr ⟨fun hout => hfresh a hout List.mem_cons_self, hnodup⟩, ?_⟩
      intro b hb
      rcases List.mem_cons.mp hb with rfl | hb
      · exact ha
      · exact fun hseen => hfresh b hb (List.mem_cons_of_mem a hseen)

theorem reached (h : DepthFirst next seen todo out) :
    ∀ a ∈ out, ∃ s ∈ todo, Relation.ReflTransGen (fun a b => b ∈ next a) s a := by
  induction h with
  | done seen => simp
  | skip _ _ ih =>
      intro b hb
      obtain ⟨s, hs, hreach⟩ := ih b hb
      exact ⟨s, List.mem_cons_of_mem _ hs, hreach⟩
  | @visit seen todo out a ha _ ih =>
      intro b hb
      rcases List.mem_cons.mp hb with rfl | hb
      · exact ⟨b, List.mem_cons_self, .refl⟩
      · obtain ⟨s, hs, hreach⟩ := ih b hb
        rcases List.mem_append.mp hs with hs | hs
        · exact ⟨a, List.mem_cons_self, .head hs hreach⟩
        · exact ⟨s, List.mem_cons_of_mem a hs, hreach⟩

/-- Nothing is left out: neither of `todo`, nor of what comes next to a listed node. -/
theorem covers (h : DepthFirst next seen todo out) :
    (∀ a ∈ todo, a ∈ seen ∨ a ∈ out) ∧ ∀ a ∈ out, ∀ b ∈ next a, b ∈ seen ∨ b ∈ out := by
  induction h with
  | done seen => simp
  | skip ha _ ih =>
      refine ⟨?_, ih.2⟩
      intro b hb
      rcases List.mem_cons.mp hb with rfl | hb
      · exact .inl ha
      · exact ih.1 b hb
  | @visit seen todo out a ha _ ih =>
      have hlisted : ∀ b, (b ∈ a :: seen ∨ b ∈ out) → b ∈ seen ∨ b ∈ a :: out := by
        intro b hb
        rw [List.mem_cons, or_assoc, or_left_comm] at hb
        rwa [List.mem_cons]
      refine ⟨?_, ?_⟩
      · intro b hb
        rcases List.mem_cons.mp hb with rfl | hb
        · exact .inr List.mem_cons_self
        · exact hlisted b (ih.1 b (List.mem_append_right _ hb))
      · intro b hb c hc
        rcases List.mem_cons.mp hb with rfl | hb
        · exact hlisted c (ih.1 c (List.mem_append_left _ hc))
        · exact hlisted c (ih.2 b hb c hc)

theorem mem_iff (h : DepthFirst next [] todo out) (a : α) :
    a ∈ out ↔ ∃ s ∈ todo, Relation.ReflTransGen (fun a b => b ∈ next a) s a := by
  obtain ⟨hstart, hclosed⟩ := h.covers
  refine ⟨h.reached a, ?_⟩
  rintro ⟨s, hs, hreach⟩
  induction hreach with
  | refl => simpa using hstart s hs
  | tail _ hnext ih => simpa using hclosed _ ih _ hnext

end DepthFirst

/-! ## Depth -/

section Depth

variable {l : Loader} {codes : List Code} {paths : List String} {w w' : Walk}

/-- All documents that can be loaded have one of some paths. -/
def Loader.Within (l : Loader) (codes : List Code) (paths : List String) : Prop :=
  ∀ uri d, l.documentAt codes uri = .ok d → d.path ∈ paths

theorem Walk.mem_parsed_of_mem_docs {d : Document} (h : d ∈ w.docs) : d ∈ w.parsed := by
  obtain ⟨n, -, hn⟩ := List.mem_filterMap.mp h
  exact List.mem_of_getElem? hn

theorem Walk.Sound.length_docs (hw : w.Sound l codes) : w.docs.length = w.seen.length := by
  simpa using congrArg List.length hw.paths

theorem Walk.Sound.length_seen_le (hw : w.Sound l codes) (hl : l.Within codes paths) :
    w.seen.length ≤ paths.length := by
  refine hw.once.length_le_of_subset fun p hp => ?_
  rw [← List.mem_reverse, ← hw.paths] at hp
  obtain ⟨d, hd, rfl⟩ := List.mem_map.mp hp
  obtain ⟨uri, huri⟩ := hw.parsed d (Walk.mem_parsed_of_mem_docs hd)
  exact hl uri d.unmarked huri

theorem visit_grows {fuel n : Nat} (hw : w.Sound l codes) (h : l.visit fuel n w = (.ok (), w')) :
    w'.Sound l codes ∧ w.seen.length ≤ w'.seen.length := by
  have hmoves : Moves l codes [] w w' := visit_moves hw h
  have hw' := Moves.sound hmoves hw
  have hlength := (Moves.docs_prefix hmoves hw).length_le
  simp only [List.length_map, hw.length_docs, hw'.length_docs] at hlength
  exact ⟨hw', hlength⟩

theorem followIncludes_congr {visit visit' : Nat → Step Unit} {source : String}
    {includes : List String} {depth : Nat} (hw : w.Sound l codes) (hdepth : depth ≤ w.seen.length)
    (hsame : ∀ n w, w.Sound l codes → depth ≤ w.seen.length → visit n w = visit' n w)
    (hgrows : ∀ n w w', w.Sound l codes → visit n w = (.ok (), w') →
      w'.Sound l codes ∧ w.seen.length ≤ w'.seen.length) :
    l.followIncludes visit source includes w = l.followIncludes visit' source includes w := by
  induction includes generalizing w with
  | nil => rfl
  | cons path rest ih =>
      rw [Loader.followIncludes, Loader.followIncludes]
      cases l.resolve? w.cache source path with
      | none =>
          have hrest := ih (hw.miss source path) hdepth
          dsimp only
          split
          · rfl
          · exact hrest
      | some uri =>
          dsimp only
          cases hload : l.load uri w with
          | mk result w₁ =>
              cases result with
              | error e => rfl
              | ok n =>
                  have hloads := hw.loads hload
                  have hw₁ := hloads.sound hw
                  have hdepth₁ : depth ≤ w₁.seen.length := by rwa [(hloads.frame hw).2.1]
                  dsimp only
                  rw [← hsame n w₁ hw₁ hdepth₁]
                  cases hvisit : visit n w₁ with
                  | mk result w₂ =>
                      cases result with
                      | error e => rfl
                      | ok _ =>
                          obtain ⟨hw₂, hgrown⟩ := hgrows n w₁ w₂ hw₁ hvisit
                          exact ih hw₂ (Nat.le_trans hdepth₁ hgrown)

/-- Where the depth allows for every path that is not yet seen, more depth makes no
difference: the bound on the depth is not reached. -/
theorem visit_depth {fuel fuel' n : Nat} (hl : l.Within codes paths) (hw : w.Sound l codes)
    (h : paths.length < fuel + w.seen.length) (h' : paths.length < fuel' + w.seen.length) :
    l.visit fuel n w = l.visit fuel' n w := by
  induction fuel generalizing fuel' n w with
  | zero =>
      have hseen := hw.length_seen_le hl
      omega
  | succ fuel ih =>
      cases fuel' with
      | zero =>
          have hseen := hw.length_seen_le hl
          omega
      | succ fuel' =>
          rw [Loader.visit, Loader.visit]
          cases hknown : w.parsed[n]? with
          | none => rfl
          | some d =>
              dsimp only
              split
              · rfl
              · rename_i hseen
                have hfresh : d.path ∉ w.seen := by simpa using hseen
                have hdepth : w.seen.length + 1 ≤ (w.enter n d.path).seen.length := Nat.le_refl _
                refine followIncludes_congr (hw.enter hknown hfresh) hdepth ?_
                  fun _ _ _ => visit_grows
                intro k v hv hseen
                exact ih hv (by omega) (by omega)

/-- The loader with another bound on the number of paths. -/
def Loader.withBound (l : Loader) (bound : Nat) : Loader :=
  { l with system := { l.system with bound } }

theorem followIncludes_withBound (visit : Nat → Step Unit) (bound : Nat) (source : String)
    (includes : List String) (w : Walk) :
    (l.withBound bound).followIncludes visit source includes w =
      l.followIncludes visit source includes w := by
  induction includes generalizing w with
  | nil => rfl
  | cons path rest ih =>
      simp only [Loader.followIncludes, ih]
      rfl

theorem visit_withBound (bound fuel n : Nat) (w : Walk) :
    (l.withBound bound).visit fuel n w = l.visit fuel n w := by
  induction fuel generalizing n w with
  | zero => rfl
  | succ fuel ih =>
      have hvisit : (l.withBound bound).visit fuel = l.visit fuel := by
        funext n w
        exact ih n w
      simp only [Loader.visit, followIncludes_withBound, hvisit]

/-- Every bound that allows for all paths gives the same walk. -/
theorem visitEntries_withBound {bound : Nat} (entries : List String) (hl : l.Within codes paths)
    (hlength : paths.length ≤ l.system.bound) (hbound : paths.length ≤ bound)
    (hw : w.Sound l codes) :
    (l.withBound bound).visitEntries entries w = l.visitEntries entries w := by
  induction entries generalizing w with
  | nil => rfl
  | cons entry rest ih =>
      have hload : (l.withBound bound).load (Target.normalize entry) w =
          l.load (Target.normalize entry) w := rfl
      rw [Loader.visitEntries, Loader.visitEntries, hload]
      cases hloaded : l.load (Target.normalize entry) w with
      | mk result w₁ =>
          cases result with
          | error e => rfl
          | ok n =>
              have hw₁ := ((hw.loads hloaded).sound hw).mark n
              have hvisit : (l.withBound bound).visit (2 * bound + 2) n (Loader.markEntry n w₁) =
                  l.visit (2 * l.system.bound + 2) n (Loader.markEntry n w₁) := by
                rw [visit_withBound]
                exact visit_depth hl hw₁ (by omega) (by omega)
              have hdepth : (l.withBound bound).system.bound = bound := rfl
              dsimp only
              rw [hdepth, hvisit]
              cases hvisited : l.visit (2 * l.system.bound + 2) n (Loader.markEntry n w₁) with
              | mk result w₂ =>
                  cases result with
                  | error e => rfl
                  | ok _ => exact ih (visit_grows hw₁ hvisited).1

end Depth

/-! ## Exploring -/

namespace Loader

variable (l : Loader)

/-- The path of the file that a target opens to, the first one of a directory. -/
def pathAt? (uri : String) : Option String :=
  ((l.system.openAt uri).toOption.bind List.head?).map (·.path)

/-- The paths that some includes of a file lead to, in order. -/
def follow (source : String) (includes : List String) : List String :=
  includes.filterMap fun path => (l.target? source path).bind l.pathAt?

/-- The includes of a file that mean no target, in order. -/
def dangling (source : String) (includes : List String) : List Unresolved :=
  (includes.filter fun path => (l.target? source path).isNone).map (⟨source, ·⟩)

theorem pathAt?_of_documentAt {l : Loader} {codes : List Code} {uri : String} {d : Document}
    (h : l.documentAt codes uri = .ok d) : l.pathAt? uri = some d.path := by
  obtain ⟨f, fs, hopen, hcompile⟩ := documentAt_eq_ok h
  have hpath := (compileFile_fresh (Prod.ext hcompile rfl)).1
  simp [pathAt?, hopen, hpath, Except.toOption]

end Loader

/-- From `w` to `w'` a walk has dealt with the paths `todo` and with the includes
`missing`, which mean no target; on the way it has added the documents `new` with
all that they include. -/
structure Explored (l : Loader) (next : String → List String) (w w' : Walk) (todo : List String)
    (missing : List Unresolved) (new : List Document) : Prop where
  docs : w'.docs.map Document.unmarked = w.docs.map Document.unmarked ++ new
  unresolved : w'.unresolved.Perm
    (w.unresolved ++ missing ++ new.flatMap fun d => l.dangling d.path d.includes)
  depthFirst : ∀ rest out, DepthFirst next w'.seen rest out →
    DepthFirst next w.seen (todo ++ rest) (new.map (·.path) ++ out)

namespace Explored

variable {l : Loader} {next : String → List String} {w w' w'' : Walk} {todo todo' : List String}
  {missing missing' : List Unresolved} {new new' : List Document}

theorem unchanged (hdocs : w'.docs = w.docs) (hseen : w'.seen = w.seen)
    (hunresolved : w'.unresolved = w.unresolved) : Explored l next w w' [] [] [] :=
  ⟨by simp [hdocs], by simp [hunresolved], fun rest out h => by simpa [hseen] using h⟩

theorem miss (source path : String) :
    Explored l next w (w.miss source path) [] [⟨source, path⟩] [] :=
  ⟨(List.append_nil _).symm, by simp [Walk.miss], fun _ _ h => h⟩

theorem skip {path : String} (h : path ∈ w.seen) : Explored l next w w [path] [] [] :=
  ⟨by simp, by simp, fun _ _ hrest => .skip h hrest⟩

theorem trans (h : Explored l next w w' todo missing new)
    (h' : Explored l next w' w'' todo' missing' new') :
    Explored l next w w'' (todo ++ todo') (missing ++ missing') (new ++ new') := by
  refine ⟨?_, ?_, ?_⟩
  · rw [h'.docs, h.docs, List.append_assoc]
  · refine List.perm_iff_count.mpr fun u => ?_
    have hu := h.unresolved.count_eq u
    have hu' := h'.unresolved.count_eq u
    simp only [List.count_append, List.flatMap_append] at hu hu' ⊢
    omega
  · intro rest out hrest
    have hall := h.depthFirst _ _ (h'.depthFirst rest out hrest)
    simpa using hall

theorem enter {n : Nat} {d : Document} (hknown : w.parsed[n]? = some d) (hfresh : d.path ∉ w.seen)
    (hnext : next d.path = l.follow d.path d.includes)
    (h : Explored l next (w.enter n d.path) w' (l.follow d.path d.includes)
      (l.dangling d.path d.includes) new) :
    Explored l next w w' [d.path] [] (d.unmarked :: new) := by
  refine ⟨?_, ?_, ?_⟩
  · rw [h.docs, Walk.docs_enter hknown]
    simp
  · have hunresolved := h.unresolved
    simpa [Walk.enter] using hunresolved
  · intro rest out hrest
    have hall := h.depthFirst rest out hrest
    rw [← hnext] at hall
    exact .visit hfresh hall

end Explored

section Exploring

variable {l : Loader} {codes : List Code} {paths : List String} {next : String → List String}
  {w w' : Walk}

theorem followIncludes_explored {visit : Nat → Step Unit} {source : String}
    {includes : List String} {depth : Nat} (hw : w.Sound l codes) (hdepth : depth ≤ w.seen.length)
    (hgrows : ∀ n w w', w.Sound l codes → visit n w = (.ok (), w') →
      w'.Sound l codes ∧ w.seen.length ≤ w'.seen.length)
    (hvisit : ∀ n d w w', w.Sound l codes → depth ≤ w.seen.length → w.parsed[n]? = some d →
      visit n w = (.ok (), w') → ∃ new, Explored l next w w' [d.path] [] new)
    (h : l.followIncludes visit source includes w = (.ok (), w')) :
    ∃ new, Explored l next w w' (l.follow source includes) (l.dangling source includes) new := by
  induction includes generalizing w with
  | nil =>
      cases h
      exact ⟨[], .unchanged rfl rfl rfl⟩
  | cons path rest ih =>
      rcases followIncludes_cons_ok hw h with
        ⟨htarget, hrest⟩ | ⟨uri, n, w₁, w₂, htarget, hload, hrun, hrest⟩
      · obtain ⟨new, hnew⟩ := ih (hw.miss source path) hdepth hrest
        refine ⟨new, ?_⟩
        simpa [Loader.follow, Loader.dangling, htarget] using (Explored.miss source path).trans hnew
      · have hloads := hw.loads hload
        obtain ⟨hdocs, hseen, hunresolved⟩ := hloads.frame hw
        obtain ⟨d, hknown, hfound⟩ := hloads.document
        have hpath : l.pathAt? uri = some d.unmarked.path := Loader.pathAt?_of_documentAt hfound
        have hdepth₁ : depth ≤ w₁.seen.length := by rwa [hseen]
        obtain ⟨hw₂, hgrown⟩ := hgrows n w₁ w₂ (hloads.sound hw) hrun
        obtain ⟨new, hnew⟩ := hvisit n d w₁ w₂ (hloads.sound hw) hdepth₁ hknown hrun
        obtain ⟨new', hnew'⟩ := ih hw₂ (Nat.le_trans hdepth₁ hgrown) hrest
        have hall := ((Explored.unchanged hdocs hseen hunresolved).trans hnew).trans hnew'
        refine ⟨new ++ new', ?_⟩
        simpa [Loader.follow, Loader.dangling, htarget, hpath] using hall

theorem visit_explored {fuel n : Nat} {d : Document} (hl : l.Within codes paths)
    (hnext : ∀ uri d, l.documentAt codes uri = .ok d → next d.path = l.follow d.path d.includes)
    (hw : w.Sound l codes) (hdepth : paths.length < fuel + w.seen.length)
    (hknown : w.parsed[n]? = some d) (h : l.visit fuel n w = (.ok (), w')) :
    ∃ new, Explored l next w w' [d.path] [] new := by
  induction fuel generalizing n d w w' with
  | zero =>
      have hseen := hw.length_seen_le hl
      omega
  | succ fuel ih =>
      obtain ⟨e, he, hcases⟩ := visit_ok h
      obtain rfl : d = e := Option.some.inj (hknown.symm.trans he)
      rcases hcases with ⟨hseen, rfl⟩ | ⟨hfresh, hfollow⟩
      · exact ⟨[], .skip hseen⟩
      · have hentered : w.seen.length + 1 ≤ (w.enter n d.path).seen.length := Nat.le_refl _
        obtain ⟨uri, hfound⟩ := hw.parsed d (List.mem_of_getElem? hknown)
        have hincluded : ∃ new, Explored l next (w.enter n d.path) w' (l.follow d.path d.includes)
            (l.dangling d.path d.includes) new :=
          followIncludes_explored (hw.enter hknown hfresh) hentered (fun _ _ _ => visit_grows)
            (fun _ _ _ _ hv hseen => ih hv (by omega)) hfollow
        obtain ⟨new, hnew⟩ := hincluded
        exact ⟨_, .enter hknown hfresh (hnext uri d.unmarked hfound) hnew⟩

/-- A run that succeeds explores what its entries lead to. -/
theorem visitEntries_explored {entries : List String} (hl : l.Within codes paths)
    (hlength : paths.length ≤ l.system.bound)
    (hnext : ∀ uri d, l.documentAt codes uri = .ok d → next d.path = l.follow d.path d.includes)
    (hw : w.Sound l codes) (h : l.visitEntries entries w = (.ok (), w')) :
    ∃ starts new, entries.map (fun entry => l.pathAt? (Target.normalize entry)) = starts.map some ∧
      Explored l next w w' starts [] new := by
  induction entries generalizing w with
  | nil =>
      cases h
      exact ⟨[], [], rfl, .unchanged rfl rfl rfl⟩
  | cons entry rest ih =>
      obtain ⟨n, w₁, w₂, hload, hvisit, hrest⟩ := visitEntries_cons_ok h
      have hloads := hw.loads hload
      obtain ⟨hdocs, hseen, hunresolved⟩ := hloads.frame hw
      obtain ⟨d, hknown, hfound⟩ := hloads.document
      have hpath : l.pathAt? (Target.normalize entry) = some d.unmarked.path :=
        Loader.pathAt?_of_documentAt hfound
      have hw₁ := (hloads.sound hw).mark n
      have hmarked : (Loader.markEntry n w₁).parsed[n]? = some { d with entry := true } := by
        simp [Walk.getElem?_markEntry, hknown]
      obtain ⟨new, hnew⟩ := visit_explored hl hnext hw₁ (by omega) hmarked hvisit
      obtain ⟨starts, new', hstarts, hnew'⟩ := ih (visit_grows hw₁ hvisit).1 hrest
      have hbegun : Explored l next w (Loader.markEntry n w₁) [] [] [] := by
        refine ⟨?_, ?_, ?_⟩
        · rw [Walk.docs_markEntry, hdocs, List.append_nil]
        · simp [Loader.markEntry, hunresolved]
        · intro todo out hout
          simpa [Loader.markEntry, hseen] using hout
      refine ⟨d.path :: starts, new ++ new', by simp [hpath, hstarts], ?_⟩
      exact (hbegun.trans hnew).trans hnew'

/-- What is reported of an include that means no target. -/
def Unresolved.diagnostic (u : Unresolved) : Diagnostic := Loader.unresolvedInclude u.file u.path

/-- With the default codes, what a walk reports are the includes that it gives up. -/
theorem Moves.reported {entries : List String} (h : Moves l Code.harmless entries w w')
    (hw : w.reporter.reported = w.unresolved.map Unresolved.diagnostic) :
    w'.reporter.reported = w'.unresolved.map Unresolved.diagnostic := by
  induction h with
  | refl => exact hw
  | tail _ hmove ih =>
      cases hmove with
      | load hmeant hloads =>
          cases hloads with
          | recalled hhit hknown hfound => exact ih
          | @parsed d r habsent hfound hsame hsilent =>
              obtain rfl := hsilent rfl
              exact ih
      | miss source path => simp [Walk.miss, Unresolved.diagnostic, ih]
      | enter hknown hfresh => exact ih
      | mark hgiven hknown hfound => exact ih

end Exploring

/-! ## Files in memory -/

open Files (Memory SourceFile Kind)

def Loader.ofMemory (m : Memory) (revise : Bool) : Loader := { system := m.system, revise }

def storedDocument? (m : Memory) (revise : Bool) (path : String) : Option Document :=
  (m.files.find? path).bind fun s =>
    (compileFile (.ofText path s (Kind.ofPath path)) revise {}).1.toOption.join

def includedPaths (m : Memory) (revise : Bool) (path : String) : List String :=
  match storedDocument? m revise path with
  | some d => (Loader.ofMemory m revise).follow d.path d.includes
  | none => []

section InMemory

variable {m : Memory} {revise : Bool} {uri : String}

/-- What a memory opens is stored under its own path, also beneath a directory. -/
theorem openAt_stored {f : SourceFile} {fs : List SourceFile} (hkeys : m.files.keys.Nodup)
    (h : m.openAt uri = .ok (f :: fs)) :
    ∃ s, m.files.find? f.path = some s ∧ f = .ofText f.path s (Kind.ofPath f.path) := by
  unfold Memory.openAt at h
  dsimp only at h
  split at h
  · rename_i s hfile
    cases h
    exact ⟨s, hfile, rfl⟩
  · split at h
    · cases h
    · have hbeneath := Except.ok.inj h
      have hmem : f ∈ m.beneath (Path.rooted uri) := by simp [hbeneath]
      obtain ⟨⟨k, s⟩, hstored, rfl⟩ := List.mem_map.mp hmem
      have hfiles : (k, s) ∈ m.files :=
        (List.mem_filter.mp (List.mem_mergeSort.mp hstored)).1
      exact ⟨s, Table.find?_of_mem hkeys hfiles, rfl⟩

theorem documentAt_stored {d : Document} (hkeys : m.files.keys.Nodup)
    (h : (Loader.ofMemory m revise).documentAt Code.harmless uri = .ok d) :
    storedDocument? m revise d.path = some d ∧ d.path ∈ m.files.keys := by
  obtain ⟨f, fs, hopen, hcompile⟩ := Loader.documentAt_eq_ok h
  obtain ⟨s, hstored, hf⟩ := openAt_stored hkeys hopen
  have hpath := (compileFile_fresh (Prod.ext hcompile rfl)).1
  rw [hf] at hcompile
  rw [hpath]
  refine ⟨?_, List.mem_map_of_mem (Table.mem_of_find? hstored)⟩
  have hcompiled : (compileFile (.ofText f.path s (Kind.ofPath f.path)) revise {}).1 =
      .ok (some d) := hcompile
  simp [storedDocument?, hstored, hcompiled, Except.toOption]

theorem within_ofMemory (hkeys : m.files.keys.Nodup) :
    (Loader.ofMemory m revise).Within Code.harmless m.files.keys :=
  fun _ _ h => (documentAt_stored hkeys h).2

theorem includedPaths_of_documentAt (hkeys : m.files.keys.Nodup) (uri : String) (d : Document)
    (h : (Loader.ofMemory m revise).documentAt Code.harmless uri = .ok d) :
    includedPaths m revise d.path = (Loader.ofMemory m revise).follow d.path d.includes := by
  unfold includedPaths
  rw [(documentAt_stored hkeys h).1]

end InMemory

/-! ## Reports -/

theorem reported_foldl (ds : List Diagnostic) (r : Reporter) :
    (ds.foldl Reporter.report r).reported = r.reported ++ ds := by
  induction ds generalizing r with
  | nil => simp
  | cons d ds ih => simp [ih]

/-- Checking names reports nothing about includes. -/
theorem filter_reported_check (docs : List Document) (r : Reporter) :
    (check docs r).reported.filter (·.code == Code.unresolvedInclude) =
      r.reported.filter (·.code == Code.unresolvedInclude) := by
  have hnone : ((docs.flatMap (documentProblems (Symbols.ofDocs docs))).filter
      (·.code == Code.unresolvedInclude)) = [] := by
    refine List.filter_eq_nil_iff.mpr fun d hd => ?_
    obtain ⟨doc, -, hd⟩ := List.mem_flatMap.mp hd
    obtain ⟨node, -, hd⟩ := List.mem_flatMap.mp hd
    split at hd
    · cases hd
    · obtain ⟨message, -, rfl⟩ := List.mem_map.mp hd
      exact (by decide : ¬ (Code.unresolvedType == Code.unresolvedInclude) = true)
  unfold check
  rw [reported_foldl, List.filter_append, hnone, List.append_nil]

theorem filter_diagnostics (us : List Unresolved) :
    (us.map Unresolved.diagnostic).filter (·.code == Code.unresolvedInclude) =
      us.map Unresolved.diagnostic := by
  refine List.filter_eq_self.mpr fun d hd => ?_
  obtain ⟨u, -, rfl⟩ := List.mem_map.mp hd
  exact (by decide : (Code.unresolvedInclude == Code.unresolvedInclude) = true)

/-- What is reported about includes once a walk with the default codes has ended. -/
theorem Moves.reported_check {l : Loader} {entries : List String} {size : Nat} {w : Walk}
    (h : Moves l Code.harmless entries (Walk.start size {}) w) :
    (check w.docs w.reporter).reported.filter (·.code == Code.unresolvedInclude) =
      w.unresolved.map Unresolved.diagnostic := by
  rw [filter_reported_check, Moves.reported h rfl, filter_diagnostics]

/-- Loading is the closure under includes. For all files in memory, all entries and
every cache: the walk ends, for no bound on its depth that allows for the files is
reached. If it succeeds, each entry leads to a file, and the documents are those of
the files that the entries lead to, depth first, each path once: exactly the paths
that can be reached. The includes of these documents that mean no file are reported
once for each place where they stand, and no other include is. -/
theorem loadAll_depthFirst (files : List (String × String)) (revise : Bool) (size : Nat)
    (entries : List String) :
    let m := Memory.ofList files
    let l := Loader.ofMemory m revise
    let loaded := l.loadAll size entries {}
    (∀ bound, m.files.length ≤ bound → (l.withBound bound).loadAll size entries {} = loaded) ∧
      ∀ docs, loaded.docs = .ok docs →
        ∃ starts, entries.map (fun entry => l.pathAt? (Target.normalize entry)) = starts.map some ∧
          DepthFirst (includedPaths m revise) [] starts (docs.map (·.path)) ∧
          (docs.map (·.path)).Nodup ∧
          (∀ path, path ∈ docs.map (·.path) ↔ ∃ start ∈ starts,
            Relation.ReflTransGen (fun p q => q ∈ includedPaths m revise p) start path) ∧
          (∀ d ∈ docs, storedDocument? m revise d.path = some d.unmarked) ∧
          (loaded.reporter.reported.filter (·.code == Code.unresolvedInclude)).Perm
            (docs.flatMap fun d => (l.dangling d.path d.includes).map Unresolved.diagnostic) := by
  intro m l loaded
  have hkeys : m.files.keys.Nodup := Table.nodup_keys_ofList _
  have hlength : m.files.keys.length = m.files.length := List.length_map _
  have hwithin : l.Within Code.harmless m.files.keys := within_ofMemory hkeys
  have hstart : (Walk.start size {}).Sound l Code.harmless := .start l size {}
  constructor
  · intro bound hbound
    have hsame : (l.withBound bound).visitEntries entries { cache := { size }, reporter := {} } =
        l.visitEntries entries { cache := { size }, reporter := {} } :=
      visitEntries_withBound entries hwithin (Nat.le_of_eq hlength) (hlength ▸ hbound) hstart
    simp only [loaded, Loader.loadAll, hsame]
  · intro docs hdocs
    obtain ⟨w, hrun, rfl, hreporter⟩ := loadAll_ok hdocs
    have hmoves : Moves l Code.harmless entries (Walk.start size {}) w :=
      visitEntries_moves (List.Subset.refl _) hstart hrun
    obtain ⟨starts, new, hstarts, hexplored⟩ := visitEntries_explored hwithin
      (Nat.le_of_eq hlength) (includedPaths_of_documentAt hkeys) hstart hrun
    obtain rfl : w.docs.map Document.unmarked = new := hexplored.docs
    have hlisted : DepthFirst (includedPaths m revise) [] starts (w.docs.map (·.path)) := by
      have hall := hexplored.depthFirst [] [] (.done w.seen)
      rwa [map_path_unmarked, List.append_nil, List.append_nil] at hall
    refine ⟨starts, hstarts, hlisted, hlisted.fresh.1, hlisted.mem_iff, ?_, ?_⟩
    · intro d hd
      obtain ⟨uri, huri⟩ := (Moves.sound hmoves hstart).parsed d (Walk.mem_parsed_of_mem_docs hd)
      exact (documentAt_stored hkeys huri).1
    · have hperm := hexplored.unresolved.map Unresolved.diagnostic
      rw [hreporter, Moves.reported_check hmoves]
      simpa [Walk.start, List.map_flatMap, List.flatMap_map] using hperm

/-- Files that include each other in a circle, with one that is included twice and an
include that means no file. -/
def circle : List (String × String) :=
  [("a.thrift", "include 'b.thrift'\ninclude 'x.thrift'"),
    ("b.thrift", "include 'd/c.thrift'\ninclude 'a.thrift'"),
    ("d/c.thrift", "include 'b.thrift'"), ("e.thrift", "")]

theorem paths_circle :
    ((Loader.ofMemory (Memory.ofList circle) true).loadAll 1 ["d/../a.thrift", "e.thrift"]
        {}).docs.toOption.map (·.map (·.path)) =
      some ["/a.thrift", "/b.thrift", "/d/c.thrift", "/e.thrift"] := by
  decide +kernel

theorem loadAll_depthFirst_circle :
    let l := Loader.ofMemory (Memory.ofList circle) true
    let loaded := l.loadAll 1 ["d/../a.thrift", "e.thrift"] {}
    ∃ docs, loaded.docs = .ok docs ∧
      docs.map (·.path) = ["/a.thrift", "/b.thrift", "/d/c.thrift", "/e.thrift"] ∧
      ∃ starts, DepthFirst (includedPaths (Memory.ofList circle) true) [] starts
          (docs.map (·.path)) ∧
        (loaded.reporter.reported.filter (·.code == Code.unresolvedInclude)).Perm
          (docs.flatMap fun d => (l.dangling d.path d.includes).map Unresolved.diagnostic) := by
  obtain ⟨docs, hdocs, hpaths⟩ := Option.map_eq_some_iff.mp paths_circle
  have hok := Source.ok_of_toOption hdocs
  obtain ⟨starts, -, hdepthFirst, -, -, -, hperm⟩ :=
    (loadAll_depthFirst circle true 1 ["d/../a.thrift", "e.thrift"]).2 docs hok
  exact ⟨docs, hok, hpaths, starts, hdepthFirst, hperm⟩

end Load
end ClientGen
