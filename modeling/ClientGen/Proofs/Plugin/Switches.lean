import ClientGen.Generate.Project
import ClientGen.Proofs.Mock.Switchboard
import ClientGen.Proofs.Pipeline.Scheduling
import ClientGen.Proofs.Source.Failure

/-! # The mock switchboard plugin

The plugin is hosted by a program with any other plugins before and after it (`Hosting`), which
leave alone what it remembers (`Spares`). The stage before generation starts a board, and each
call of the stage of a service adds the methods of the service to it and writes the file anew. So
after any sequence of calls the board holds the names of all of them, and the file is the merge
of the prior switchboard with these names.
-/

namespace ClientGen
namespace Pipeline

open Source (Failure)

@[simp] theorem Run.board_setBoard (r : Run) (slot : Nat) (b : Board) :
    (r.setBoard slot b).board slot = b := by
  simp [Run.board, Run.setBoard]

@[simp] theorem Run.board_put (r : Run) (path content : String) (slot : Nat) :
    (r.put path content).board slot = r.board slot := rfl

@[simp] theorem Run.board_hintOnce (r : Run) (key message : String) (fields : Table String)
    (slot : Nat) : (r.hintOnce key message fields).2.board slot = r.board slot := by
  unfold Run.hintOnce
  split <;> rfl

theorem Run.find?_put (r : Run) (path content : String) :
    (r.put path content).output.find? path = some content := by
  rw [Run.put, Table.find?_insert, if_pos rfl]

namespace Stage

variable {γ : Type} {x : Option Failure × γ × Run} {c : γ} {f : Failure} {r : Run}

theorem settle_eq_ok_iff : settle x = (.ok c, r) ↔ x = (none, c, r) := by
  rcases x with ⟨_ | f, c', r'⟩ <;> simp [settle]

theorem exists_of_settle (h : settle x = (.error f, r)) : ∃ c, x = (some f, c, r) := by
  rcases x with ⟨_ | g, c', r'⟩
  · simp [settle] at h
  · simp only [settle, Prod.mk.injEq, Except.error.injEq] at h
    exact ⟨c', by rw [h.1, h.2]⟩

end Stage
end Pipeline

namespace Plugin

open Pipeline
open Mock (Switchboard Prior)
open Source (Failure)

/-! ## Programs -/

def callNames (c : FileContext) : List String :=
  c.methods.map fun m => c.service.name ++ "." ++ m.name

/-- What a handler of another plugin leaves alone: what this plugin remembers, and, where it runs
after this plugin, the names of the methods and the file. -/
structure Spares (slot : Nat) (path : String) (x : Registration Stage) : Prop where
  entries : ∀ h, x.handler = .parseEntry h →
    ∀ c r c' r', h c r = (.ok c', r') → r'.board slot = r.board slot
  services : ∀ h, x.handler = .generateFile h →
    ∀ c r c' r', h c r = (.ok c', r') → r'.board slot = r.board slot
  late : x.key = key "AFTER" Stage.generateFileHook → Stage.late ≤ x.priority →
    ∀ h, x.handler = .generateFile h → ∀ c r c' r', h c r = (.ok c', r') →
      callNames c' = callNames c ∧ r'.output.find? path = r.output.find? path

/-- A plugin that leaves alone what this one keeps. -/
structure Guest (slot : Nat) (path : String) (p : Plugin Stage) : Prop where
  applies : p.failure = none
  spares : ∀ x ∈ p.registrations, Spares slot path x

/-- A plugin that does not drop the files to be written. -/
def KeepsOutput (p : Plugin Stage) : Prop :=
  ∀ x ∈ p.registrations, ∀ h, x.handler = .parseEntry h →
    ∀ c r c' r', h c r = (.ok c', r') → c.output.isSome → c'.output.isSome

/-- A program with the plugin: what the plugin is given, and which plugins are loaded before and
after it. -/
structure Hosting where
  slot : Nat
  prior : Prior
  path : String
  before : List (Plugin Stage)
  after : List (Plugin Stage)
  guests : ∀ p ∈ before ++ after, Guest slot path p

namespace Hosting

variable (w : Hosting)

def bus : Except Failure (Bus Stage) :=
  Bus.ofPlugins (w.before ++ Plugin.switches w.slot w.prior w.path :: w.after)

def others (hook : String) : List (Registration Stage) :=
  ((w.before ++ w.after).flatMap owned).filter fun x => phases.any fun p => x.key == key p hook

/-- No other plugin drops the files to be written. -/
def KeepsOutput : Prop := ∀ p ∈ w.before ++ w.after, Plugin.KeepsOutput p

end Hosting

/-- Calls of the stage of a service that succeed, one after the other, with what they return.
Between two calls anything may happen but to what the plugin remembers. -/
inductive Calls (b : Bus Stage) (slot : Nat) (r : Run) : List FileContext → Run → Prop where
  | nil : Calls b slot r [] r
  | snoc {cs : List FileContext} {c c' : FileContext} {r₁ r₂ r₃ : Run} (h : Calls b slot r cs r₁)
      (hkept : r₂.board slot = r₁.board slot)
      (hcall : Stage.runGenerateFile b c r₂ = (.ok c', r₃)) : Calls b slot r (cs ++ [c']) r₃

/-! ## Handlers -/

namespace Hosting

variable (w : Hosting)

/-- The handler of the stage before generation. -/
def start : Handler Run EntryContext := fun c r => (.ok c, startBoard w.slot w.prior c r)

def extend : Handler Run FileContext := fun c r =>
  if (r.board w.slot).ready then (.ok c, extendBoard w.slot w.path c r)
  else (.error (.plain "mock config stage ran before PARSE_ENTRY"), r)

def startRegistration : Registration Stage :=
  { (Stage.parseEntry w.start).registration "AFTER" 0 with plugin := "mockconfig" }

def extendRegistration : Registration Stage :=
  { (Stage.generateFile w.extend).registration "AFTER" Stage.late with plugin := "mockconfig" }

theorem owned_switches : owned (Plugin.switches w.slot w.prior w.path) =
    [w.startRegistration, w.extendRegistration] := rfl

def loaded : Bus Stage where
  registrations := w.before.flatMap owned ++
    w.startRegistration :: w.extendRegistration :: w.after.flatMap owned

theorem bus_eq : w.bus = .ok w.loaded := by
  have happlies : ∀ p ∈ w.before ++ Plugin.switches w.slot w.prior w.path :: w.after,
      p.failure = none := by
    intro p hp
    rcases List.mem_append.mp hp with hp | hp
    · exact (w.guests p (List.mem_append_left _ hp)).applies
    · rcases List.mem_cons.mp hp with rfl | hp
      · rfl
      · exact (w.guests p (List.mem_append_right _ hp)).applies
  rw [bus, ofPlugins_eq_ok happlies, List.flatMap_append, List.flatMap_cons, owned_switches]
  rfl

variable {w}

/-- What another plugin registered, its name apart, is among its registrations. -/
theorem exists_of_mem_others {x : Registration Stage} {hook : String} (h : x ∈ w.others hook) :
    ∃ p ∈ w.before ++ w.after, ∃ y ∈ p.registrations, x = { y with plugin := p.name } := by
  obtain ⟨p, hp, hx⟩ := List.mem_flatMap.mp (List.mem_filter.mp h).1
  obtain ⟨y, hy, rfl⟩ := List.mem_map.mp hx
  exact ⟨p, hp, y, hy, rfl⟩

theorem spares_of_mem {x : Registration Stage} {hook : String} (h : x ∈ w.others hook) :
    Spares w.slot w.path x := by
  obtain ⟨p, hp, y, hy, rfl⟩ := exists_of_mem_others h
  obtain ⟨hentries, hservices, hlate⟩ := (w.guests p hp).spares y hy
  exact ⟨hentries, hservices, hlate⟩

/-- The handlers that run for a hook are those of the other plugins around the one of this. -/
theorem schedule_around {x y : Registration Stage} {xs ys : List (Registration Stage)}
    {hook elsewhere : String} (hloaded : w.loaded.registrations = xs ++ x :: ys)
    (hx : x.key = key "AFTER" hook) (hy : y.key = key "AFTER" elsewhere) (hne : elsewhere ≠ hook)
    (hothers : xs ++ ys ⊆ y :: (w.before ++ w.after).flatMap owned) :
    ∃ before behind, w.loaded.schedule hook = before ++ x :: behind ∧
      before ++ behind ⊆ w.others hook ∧
      ∀ z ∈ behind, z.key = key "AFTER" hook ∧ x.priority ≤ z.priority := by
  obtain ⟨before, behind, hschedule, hbefore, hbehind⟩ := schedule_after hloaded hx
  have hmem : ∀ z ∈ xs ++ ys, ∀ p : Phase, z.key = key p.name hook → z ∈ w.others hook := by
    intro z hz p hkey
    have hforeign : z ≠ y := by
      rintro rfl
      exact hne (key_eq_key_iff (p := .after).mp (hy.symm.trans hkey)).2
    refine List.mem_filter.mpr ⟨List.mem_of_ne_of_mem hforeign (hothers hz),
      List.any_eq_true.mpr ⟨p.name, ?_, beq_iff_eq.mpr hkey⟩⟩
    rw [← Phase.map_name_all]
    exact List.mem_map_of_mem (Phase.mem_all p)
  refine ⟨before, behind, hschedule, ?_, fun z hz => (hbehind z hz).2⟩
  intro z hz
  rcases List.mem_append.mp hz with hz | hz
  · obtain ⟨hz, p, hkey⟩ := hbefore z hz
    exact hmem z hz p hkey
  · obtain ⟨hz, hkey, -⟩ := hbehind z hz
    exact hmem z hz .after hkey

theorem schedule_entries : ∃ before behind,
    w.loaded.schedule Stage.parseEntryHook = before ++ w.startRegistration :: behind ∧
      before ++ behind ⊆ w.others Stage.parseEntryHook := by
  have hothers : w.before.flatMap owned ++ w.extendRegistration :: w.after.flatMap owned ⊆
      w.extendRegistration :: (w.before ++ w.after).flatMap owned := by
    rw [List.flatMap_append]
    exact List.perm_middle.subset
  have hhooks : Stage.generateFileHook ≠ Stage.parseEntryHook := by decide
  obtain ⟨before, behind, hschedule, hsub, -⟩ :=
    schedule_around (w := w) (x := w.startRegistration) rfl rfl rfl hhooks hothers
  exact ⟨before, behind, hschedule, hsub⟩

theorem schedule_services : ∃ before behind,
    w.loaded.schedule Stage.generateFileHook = before ++ w.extendRegistration :: behind ∧
      before ++ behind ⊆ w.others Stage.generateFileHook ∧
      ∀ x ∈ behind, x.key = key "AFTER" Stage.generateFileHook ∧ Stage.late ≤ x.priority := by
  have hloaded : w.loaded.registrations = (w.before.flatMap owned ++ [w.startRegistration]) ++
      w.extendRegistration :: w.after.flatMap owned := by
    simp [loaded]
  have hothers : (w.before.flatMap owned ++ [w.startRegistration]) ++ w.after.flatMap owned ⊆
      w.startRegistration :: (w.before ++ w.after).flatMap owned := by
    rw [List.append_assoc, List.singleton_append, List.flatMap_append]
    exact List.perm_middle.subset
  have hhooks : Stage.parseEntryHook ≠ Stage.generateFileHook := by decide
  exact schedule_around hloaded rfl rfl hhooks hothers

/-! ## One call -/

/-- A hook with a handler of this plugin runs what is scheduled for it. -/
theorem trigger_around {γ : Type} {serve : Stage → Option (Handler Run γ)} {hook : String}
    {before behind : List (Registration Stage)} {x : Registration Stage} {c : γ} {r : Run}
    (h : w.loaded.schedule hook = before ++ x :: behind) :
    w.loaded.trigger serve hook c r = Bus.runAll serve (before ++ x :: behind) c r := by
  have hhas : w.loaded.has hook = true := by
    rw [has_iff_schedule, h]
    simp
  rw [Bus.trigger, if_pos hhas, h]

theorem board_start (c : EntryContext) (r : Run) :
    (startBoard w.slot w.prior c r).board w.slot =
      { ready := c.output.isSome, prior := w.prior.switchboard? } := by
  unfold startBoard
  dsimp only
  split <;> simp

theorem board_extend (c : FileContext) (r : Run) :
    (extendBoard w.slot w.path c r).board w.slot =
      { r.board w.slot with methods := (r.board w.slot).methods ++ callNames c } := by
  simp [extendBoard, callNames]

theorem find?_extend (c : FileContext) (r : Run) :
    (extendBoard w.slot w.path c r).output.find? w.path = some (Switchboard.merge
      (r.board w.slot).prior ((r.board w.slot).methods ++ callNames c)).render :=
  Run.find?_put _ _ _

/-! ### The other handlers -/

theorem eq_parseEntry_of_serves {x : Stage} {h : Handler Run EntryContext}
    (hserves : Stage.parseEntry? x = some h) : x = .parseEntry h := by
  cases x <;> simp_all [Stage.parseEntry?]

theorem eq_generateFile_of_serves {x : Stage} {h : Handler Run FileContext}
    (hserves : Stage.generateFile? x = some h) : x = .generateFile h := by
  cases x <;> simp_all [Stage.generateFile?]

section Others

variable {regs : List (Registration Stage)}

theorem board_of_entries (hregs : regs ⊆ w.others Stage.parseEntryHook) {c c' : EntryContext}
    {r r' : Run} (h : Passes Stage.parseEntry? regs c r c' r') :
    r'.board w.slot = r.board w.slot := by
  refine h.preserves (P := fun _ r' => r'.board w.slot = r.board w.slot) ?_ rfl
  intro x hx handler hserves c r c' r' hpasses hboard
  have hkept := (spares_of_mem (hregs hx)).entries handler (eq_parseEntry_of_serves hserves)
  exact (hkept c r c' r' hpasses).trans hboard

theorem output_of_entries (hkeeps : w.KeepsOutput) (hregs : regs ⊆ w.others Stage.parseEntryHook)
    {c c' : EntryContext} {r r' : Run} (h : Passes Stage.parseEntry? regs c r c' r')
    (houtput : c.output.isSome) : c'.output.isSome := by
  refine h.preserves (P := fun c _ => c.output.isSome = true) ?_ houtput
  intro x hx handler hserves
  obtain ⟨p, hp, y, hy, rfl⟩ := exists_of_mem_others (hregs hx)
  exact hkeeps p hp y hy handler (eq_parseEntry_of_serves hserves)

theorem board_of_services (hregs : regs ⊆ w.others Stage.generateFileHook) {c c' : FileContext}
    {r r' : Run} (h : Passes Stage.generateFile? regs c r c' r') :
    r'.board w.slot = r.board w.slot := by
  refine h.preserves (P := fun _ r' => r'.board w.slot = r.board w.slot) ?_ rfl
  intro x hx handler hserves c r c' r' hpasses hboard
  have hkept := (spares_of_mem (hregs hx)).services handler (eq_generateFile_of_serves hserves)
  exact (hkept c r c' r' hpasses).trans hboard

/-- Behind this plugin the names of a call and the file stay. -/
theorem names_of_services (hregs : regs ⊆ w.others Stage.generateFileHook)
    (hlate : ∀ x ∈ regs, x.key = key "AFTER" Stage.generateFileHook ∧ Stage.late ≤ x.priority)
    {c c' : FileContext} {r r' : Run} (h : Passes Stage.generateFile? regs c r c' r') :
    callNames c' = callNames c ∧ r'.output.find? w.path = r.output.find? w.path := by
  refine h.preserves (P := fun c' r' =>
    callNames c' = callNames c ∧ r'.output.find? w.path = r.output.find? w.path) ?_ ⟨rfl, rfl⟩
  intro x hx handler hserves c r c' r' hpasses hkept
  obtain ⟨hnames, hfile⟩ := (spares_of_mem (hregs hx)).late (hlate x hx).1 (hlate x hx).2 handler
    (eq_generateFile_of_serves hserves) c r c' r' hpasses
  exact ⟨hnames.trans hkept.1, hfile.trans hkept.2⟩

end Others

/-! ### Both stages -/

/-- The stage before generation starts an empty board. -/
theorem board_of_runParseEntry {c c' : EntryContext} {r r' : Run}
    (h : Stage.runParseEntry w.loaded c r = (.ok c', r')) :
    ∃ ready, r'.board w.slot = { ready, prior := w.prior.switchboard? } ∧
      (c.output.isSome → w.KeepsOutput → ready = true) := by
  obtain ⟨before, behind, hschedule, hothers⟩ := schedule_entries (w := w)
  obtain ⟨hbefore, hbehind⟩ := List.append_subset.mp hothers
  rw [Stage.runParseEntry, Stage.settle_eq_ok_iff, trigger_around hschedule, runAll_eq_passed_iff,
    passes_append_iff] at h
  obtain ⟨c₁, r₁, hstarts, hrest⟩ := h
  cases hrest with
  | cons hserves hstart hends =>
      cases hserves
      simp only [start, Prod.mk.injEq, Except.ok.injEq] at hstart
      obtain ⟨rfl, rfl⟩ := hstart
      exact ⟨c₁.output.isSome, (board_of_entries hbehind hends).trans (board_start c₁ r₁),
        fun houtput hkeeps => output_of_entries hkeeps hbefore hstarts houtput⟩

/-- A call adds the names of its methods to the board and writes the file for the names of all
calls so far. -/
theorem board_of_runGenerateFile {c c' : FileContext} {r r' : Run}
    (h : Stage.runGenerateFile w.loaded c r = (.ok c', r')) :
    r'.board w.slot =
        { r.board w.slot with methods := (r.board w.slot).methods ++ callNames c' } ∧
      r'.output.find? w.path = some (Switchboard.merge (r.board w.slot).prior
        ((r.board w.slot).methods ++ callNames c')).render := by
  obtain ⟨before, behind, hschedule, hothers, hlate⟩ := schedule_services (w := w)
  obtain ⟨hbefore, hbehind⟩ := List.append_subset.mp hothers
  rw [Stage.runGenerateFile, Stage.settle_eq_ok_iff, trigger_around hschedule,
    runAll_eq_passed_iff, passes_append_iff] at h
  obtain ⟨c₁, r₁, hstarts, hrest⟩ := h
  have hboard := board_of_services hbefore hstarts
  cases hrest with
  | cons hserves hextend hends =>
      cases hserves
      obtain ⟨hnames, hfile⟩ := names_of_services hbehind hlate hends
      unfold extend at hextend
      split at hextend
      · simp only [Prod.mk.injEq, Except.ok.injEq] at hextend
        obtain ⟨rfl, rfl⟩ := hextend
        rw [board_of_services hbehind hends, board_extend, hfile, find?_extend, hboard, hnames]
        exact ⟨rfl, rfl⟩
      · simp at hextend

/-- The stage before generation fails only where another plugin does. -/
theorem stops_of_runParseEntry {c : EntryContext} {f : Failure} {r r' : Run}
    (h : Stage.runParseEntry w.loaded c r = (.error f, r')) :
    Stops Stage.parseEntry? (w.others Stage.parseEntryHook) f := by
  obtain ⟨before, behind, hschedule, hothers⟩ := schedule_entries (w := w)
  obtain ⟨c', h⟩ := Stage.exists_of_settle h
  rw [trigger_around hschedule] at h
  have hserves : Stage.parseEntry? w.startRegistration.handler = some w.start := rfl
  exact (stops_around (P := fun _ _ => True) hserves (fun c r _ => ⟨_, _, rfl⟩)
    (fun _ _ _ _ _ _ _ _ _ _ => trivial) trivial h).mono hothers

/-- Once the board is ready, a call fails only where another plugin does. -/
theorem stops_of_runGenerateFile {c : FileContext} {f : Failure} {r r' : Run}
    (hready : (r.board w.slot).ready) (h : Stage.runGenerateFile w.loaded c r = (.error f, r')) :
    Stops Stage.generateFile? (w.others Stage.generateFileHook) f := by
  obtain ⟨before, behind, hschedule, hothers, -⟩ := schedule_services (w := w)
  obtain ⟨c', h⟩ := Stage.exists_of_settle h
  rw [trigger_around hschedule] at h
  have hserves : Stage.generateFile? w.extendRegistration.handler = some w.extend := rfl
  refine (stops_around (P := fun _ r => (r.board w.slot).ready = true) hserves ?_ ?_ hready h).mono
    hothers
  · intro c r hready
    exact ⟨_, _, if_pos hready⟩
  · intro x hx handler hserves c r c' r' hpasses hready
    have hspares := spares_of_mem (hothers (List.mem_append_left _ hx))
    rw [hspares.services handler (eq_generateFile_of_serves hserves) c r c' r' hpasses]
    exact hready

/-! ## All calls -/

section Calling

variable {cs : List FileContext} {r r' : Run}

/-- The board holds the names of all calls, in order. -/
theorem board_of_calls (h : Calls w.loaded w.slot r cs r') :
    r'.board w.slot =
      { r.board w.slot with methods := (r.board w.slot).methods ++ cs.flatMap callNames } := by
  induction h with
  | nil => simp
  | snoc _ hkept hcall ih =>
      rw [(board_of_runGenerateFile hcall).1, hkept, ih]
      simp

/-- The file is the one for the names of all calls. -/
theorem find?_of_calls (h : Calls w.loaded w.slot r cs r') (hne : cs ≠ []) :
    r'.output.find? w.path = some (Switchboard.merge (r.board w.slot).prior
      ((r.board w.slot).methods ++ cs.flatMap callNames)).render := by
  cases h with
  | nil => exact absurd rfl hne
  | snoc hcalls hkept hcall =>
      rw [(board_of_runGenerateFile hcall).2, hkept, board_of_calls hcalls]
      simp

end Calling

end Hosting

/-! ## The plugins that come with the program -/

section Guests

variable {slot : Nat} {path : String}

/-- A handler of the stage before generation that changes neither what plugins remember about a
switchboard nor the files to be written. -/
theorem guest_of_entries {name phase : String} {priority : Int}
    {f : EntryContext → Run → EntryContext × Run} (hboards : ∀ c r, (f c r).2.boards = r.boards)
    (houtput : ∀ c r, (f c r).1.output = c.output) :
    let p : Plugin Stage :=
      { name, registrations := [(Stage.onEntries f).registration phase priority] }
    Guest slot path p ∧ KeepsOutput p := by
  have hresult : ∀ h, Stage.onEntries f = .parseEntry h → ∀ c r c' r', h c r = (.ok c', r') →
      c' = (f c r).1 ∧ r' = (f c r).2 := by
    intro h heq c r c' r' hpasses
    obtain rfl := Stage.parseEntry.inj heq
    simp only [Prod.mk.injEq, Except.ok.injEq] at hpasses
    exact ⟨hpasses.1.symm, hpasses.2.symm⟩
  refine ⟨⟨rfl, fun x hx => ?_⟩, fun x hx h heq c r c' r' hpasses hkept => ?_⟩
  · obtain rfl := List.mem_singleton.mp hx
    refine ⟨fun h heq c r c' r' hpasses => ?_, nofun, fun _ _ => nofun⟩
    rw [(hresult h heq c r c' r' hpasses).2, Run.board, Run.board, hboards]
  · obtain rfl := List.mem_singleton.mp hx
    rwa [(hresult h heq c r c' r' hpasses).1, houtput]

theorem guest_methods (enumKeysAsNumbers : Bool) :
    Guest slot path (Plugin.methods enumKeysAsNumbers) ∧
      KeepsOutput (Plugin.methods enumKeysAsNumbers) := by
  refine ⟨⟨rfl, fun x hx => ?_⟩, fun x hx => ?_⟩
  · obtain rfl := List.mem_singleton.mp hx
    refine ⟨nofun, fun h heq c r c' r' hpasses => ?_, fun hkey => ?_⟩
    · obtain rfl := Stage.generateFile.inj heq
      dsimp only at hpasses
      split at hpasses
      · simp at hpasses
      · obtain ⟨-, rfl⟩ := Prod.mk.inj hpasses
        rfl
    · exact absurd (key_eq_key_iff (p := .on) (q := .after).mp hkey).1 (by decide)
  · obtain rfl := List.mem_singleton.mp hx
    nofun

/-- Handlers of the two other stages do nothing here. -/
theorem guest_of_elsewhere {p : Plugin Stage} (hp : p.failure = none)
    (h : ∀ x ∈ p.registrations,
      Stage.parseEntry? x.handler = none ∧ Stage.generateFile? x.handler = none) :
    Guest slot path p ∧ KeepsOutput p := by
  have hentries : ∀ x ∈ p.registrations, ∀ handler, x.handler ≠ .parseEntry handler := by
    intro x hx handler heq
    simpa [heq, Stage.parseEntry?] using (h x hx).1
  have hservices : ∀ x ∈ p.registrations, ∀ handler, x.handler ≠ .generateFile handler := by
    intro x hx handler heq
    simpa [heq, Stage.generateFile?] using (h x hx).2
  refine ⟨⟨hp, fun x hx => ?_⟩, fun x hx g heq => absurd heq (hentries x hx g)⟩
  exact ⟨fun g heq => absurd heq (hentries x hx g), fun g heq => absurd heq (hservices x hx g),
    fun _ _ g heq => absurd heq (hservices x hx g)⟩

theorem guest_samples : Guest slot path Plugin.samples ∧ KeepsOutput Plugin.samples := by
  refine guest_of_elsewhere rfl fun x hx => ?_
  obtain rfl := List.mem_singleton.mp hx
  exact ⟨rfl, rfl⟩

theorem guest_formatting (banner : String) :
    Guest slot path (Plugin.formatting banner) ∧ KeepsOutput (Plugin.formatting banner) := by
  refine guest_of_elsewhere rfl fun x hx => ?_
  obtain rfl := List.mem_singleton.mp hx
  exact ⟨rfl, rfl⟩

/-- The plugins that a project may name leave the switchboard alone. -/
theorem guest_of_pluginOf {disk : Files.Disk} {project : Config.Project} {name : String} {n : Nat}
    {p : Plugin Stage} (h : Generate.pluginOf disk project name n = .ok (some p))
    (hname : name ≠ "mockconfig") : Guest slot path p ∧ KeepsOutput p := by
  unfold Generate.pluginOf at h
  split at h
  case h_1 =>
    obtain rfl := Option.some.inj (Except.ok.inj h)
    exact guest_of_entries (fun _ _ => rfl) fun _ _ => rfl
  case h_2 =>
    obtain rfl := Option.some.inj (Except.ok.inj h)
    exact guest_of_entries (fun _ _ => rfl) fun _ _ => rfl
  case h_3 =>
    obtain ⟨q, hq, heq⟩ := Source.ok_of_map h
    obtain rfl := Option.some.inj heq
    unfold Plugin.fieldFilter at hq
    split at hq
    · cases hq
    · obtain rfl := Except.ok.inj hq
      exact guest_of_entries (fun _ _ => rfl) fun _ _ => rfl
  case h_4 =>
    split at h
    · cases h
    · obtain rfl := Option.some.inj (Except.ok.inj h)
      exact guest_formatting project.banner
  case h_5 => exact absurd rfl hname
  case h_6 => cases h

theorem guest_of_mem_builtin (keys mock : Bool) {p : Plugin Stage}
    (hp : p ∈ [Plugin.includes, Plugin.methods keys] ++ if mock then [Plugin.samples] else []) :
    Guest slot path p ∧ KeepsOutput p := by
  rcases List.mem_append.mp hp with hp | hp
  · rcases List.mem_cons.mp hp with rfl | hp
    · exact guest_of_entries (fun _ _ => rfl) fun _ _ => rfl
    · obtain rfl := List.mem_singleton.mp hp
      exact guest_methods keys
  · split at hp
    · obtain rfl := List.mem_singleton.mp hp
      exact guest_samples
    · cases hp

theorem guest_of_mem_mapM {disk : Files.Disk} {project : Config.Project}
    {names : List String} {n : Nat} {plugins : List (Option (Plugin Stage))} {p : Plugin Stage}
    (h : (names.zipIdx n).mapM (fun (name, slot) => Generate.pluginOf disk project name slot) =
      .ok plugins) (hnames : "mockconfig" ∉ names) (hp : p ∈ plugins.filterMap id) :
    Guest slot path p ∧ KeepsOutput p := by
  obtain ⟨q, hq, rfl⟩ := List.mem_filterMap.mp hp
  obtain ⟨⟨name, k⟩, hname, hplugin⟩ := Source.mem_of_mapM h hq
  refine guest_of_pluginOf hplugin ?_
  rintro rfl
  exact hnames (List.fst_mem_of_mem_zipIdx hname)

def switchboardFile (project : Config.Project) : String :=
  if Path.isRooted project.mockPath then project.mockPath
  else Path.join [project.output, project.mockPath]

theorem exists_switches_of_pluginOf {disk : Files.Disk} {project : Config.Project} {n : Nat}
    {p : Option (Plugin Stage)} (h : Generate.pluginOf disk project "mockconfig" n = .ok p)
    (hwanted : project.mock ∧ project.mockPath ≠ "") :
    ∃ target, Path.relative? project.output (switchboardFile project) = some target ∧
      p = some (Plugin.switches n (Generate.priorOn disk (switchboardFile project)) target) := by
  rw [Generate.pluginOf, if_pos hwanted] at h
  obtain ⟨q, hq, rfl⟩ := Source.ok_of_map h
  unfold Generate.switchesOf at hq
  dsimp only at hq
  split at hq
  case h_1 target htarget =>
    obtain rfl := Except.ok.inj hq
    exact ⟨target, htarget, rfl⟩
  case h_2 => cases hq

/-- A project that names the plugin, once, and wants it, runs a program that hosts it, with the
switchboard on disk as the prior one. -/
theorem exists_hosting {disk : Files.Disk} {project : Config.Project} {o : Generate.Options}
    (ho : Generate.Options.ofProject disk project = .ok o) (hmem : "mockconfig" ∈ project.plugins)
    (hnodup : project.plugins.Nodup) (hwanted : project.mock ∧ project.mockPath ≠ "") :
    ∃ w : Hosting, Bus.ofPlugins (Generate.stages o) = w.bus ∧ w.KeepsOutput ∧
      w.prior = Generate.priorOn disk (switchboardFile project) ∧
      Path.relative? project.output (switchboardFile project) = some w.path := by
  obtain ⟨names, more, hnames⟩ := List.append_of_mem hmem
  have hothers : "mockconfig" ∉ names ∧ "mockconfig" ∉ more := by
    rw [hnames, List.nodup_middle, List.nodup_cons, List.mem_append, not_or] at hnodup
    exact hnodup.1
  obtain ⟨plugins, hplugins, ho⟩ := Source.ok_of_bind ho
  rw [hnames, List.zipIdx_append, List.zipIdx_cons, List.mapM_append, List.mapM_cons] at hplugins
  obtain ⟨left, hleft, hplugins⟩ := Source.ok_of_bind hplugins
  obtain ⟨rest, hrest, hplugins⟩ := Source.ok_of_bind hplugins
  obtain ⟨own, hown, hrest⟩ := Source.ok_of_bind hrest
  obtain ⟨right, hright, hrest⟩ := Source.ok_of_bind hrest
  obtain rfl := Except.ok.inj hrest
  obtain rfl := Except.ok.inj hplugins
  obtain rfl := Except.ok.inj ho
  obtain ⟨target, htarget, rfl⟩ := exists_switches_of_pluginOf hown hwanted
  let builtin : List (Plugin Stage) :=
    [Plugin.includes, Plugin.methods project.enumKeysAsNumbers] ++
      if project.mock then [Plugin.samples] else []
  let before := builtin ++ left.filterMap id
  have hguests : ∀ {slot path}, ∀ p ∈ before ++ right.filterMap id,
      Guest slot path p ∧ KeepsOutput p := by
    intro slot path p hp
    rcases List.mem_append.mp hp with hp | hp
    · rcases List.mem_append.mp hp with hp | hp
      · exact guest_of_mem_builtin _ _ hp
      · exact guest_of_mem_mapM hleft hothers.1 hp
    · exact guest_of_mem_mapM hright hothers.2 hp
  let w : Hosting :=
    { slot := 0 + names.length, prior := Generate.priorOn disk (switchboardFile project),
      path := target, before, after := right.filterMap id,
      guests := fun p hp => (hguests p hp).1 }
  have hstages : ∀ own : Plugin Stage, builtin ++ (left ++ some own :: right).filterMap id =
      before ++ own :: right.filterMap id := by
    intro own
    simp [before]
  have hkeeps : w.KeepsOutput := fun p hp => (@hguests w.slot w.path p hp).2
  exact ⟨w, congrArg Bus.ofPlugins (hstages _), hkeeps, rfl, htarget⟩

end Guests

/-! ## The file -/

/-- A list holds exactly some texts, each once, in order. -/
def Lists (xs : List String) (P : String → Prop) : Prop :=
  xs.Pairwise (· < ·) ∧ ∀ x, x ∈ xs ↔ P x

/-- There is one such list. -/
theorem Lists.eq {xs ys : List String} {P : String → Prop} (hxs : Lists xs P) (hys : Lists ys P) :
    xs = ys := by
  have honce : ∀ {zs : List String}, zs.Pairwise (· < ·) → zs.Nodup := by
    intro zs h
    refine h.imp ?_
    rintro a b hlt rfl
    exact String.lt_irrefl a hlt
  have hperm := (List.perm_ext_iff_of_nodup (honce hxs.1) (honce hys.1)).mpr
    fun x => (hxs.2 x).trans (hys.2 x).symm
  exact hperm.eq_of_pairwise (fun a b _ _ hab hba => absurd hba (String.lt_asymm hab)) hxs.1 hys.1

/-- The file that any calls leave after the stage before generation is a switchboard of exactly
the names of all calls, of which those are enabled that were before. It reads as this switchboard,
which stays when it is merged with the same names again, and other calls with the same names, in
whatever order, leave the same file. Neither stage fails but where another plugin does, unless one
dropped the files to be written. -/
theorem switchboard_of_calls (w : Hosting) :
    ∃ b, w.bus = .ok b ∧ ∀ c r,
      (∀ f r₁, Stage.runParseEntry b c r = (.error f, r₁) →
        Stops Stage.parseEntry? (w.others Stage.parseEntryHook) f) ∧
      ∀ c₁ r₁, Stage.runParseEntry b c r = (.ok c₁, r₁) →
        ∀ cs r₂, Calls b w.slot r₁ cs r₂ →
          (cs ≠ [] → ∃ board : Switchboard,
            r₂.output.find? w.path = some board.render ∧
            Lists board.methods (· ∈ cs.flatMap callNames) ∧
            Lists board.enabled (fun x =>
              x ∈ cs.flatMap callNames ∧ ∃ s, w.prior = .known s ∧ x ∈ s.enabled) ∧
            Config.prior (some board.render) = .known board ∧
            (∀ names, (∀ x, x ∈ names ↔ x ∈ cs.flatMap callNames) →
              Switchboard.merge (some board) names = board) ∧
            ∀ cs' r₂', Calls b w.slot r₁ cs' r₂' → cs' ≠ [] →
              (∀ x, x ∈ cs'.flatMap callNames ↔ x ∈ cs.flatMap callNames) →
              r₂'.output.find? w.path = r₂.output.find? w.path) ∧
          (c.output.isSome → w.KeepsOutput → ∀ c₂ r₃ f r₄, r₃.board w.slot = r₂.board w.slot →
            Stage.runGenerateFile b c₂ r₃ = (.error f, r₄) →
            Stops Stage.generateFile? (w.others Stage.generateFileHook) f) := by
  refine ⟨w.loaded, w.bus_eq, fun c r => ⟨fun f r₁ => Hosting.stops_of_runParseEntry, ?_⟩⟩
  intro c₁ r₁ hstart cs r₂ hcalls
  obtain ⟨ready, hboard, hready⟩ := Hosting.board_of_runParseEntry hstart
  have hfile : ∀ cs r₂, Calls w.loaded w.slot r₁ cs r₂ → cs ≠ [] → r₂.output.find? w.path =
      some (Switchboard.merge w.prior.switchboard? (cs.flatMap callNames)).render := by
    intro cs r₂ hcalls hne
    rw [Hosting.find?_of_calls hcalls hne, hboard]
    rfl
  refine ⟨fun hne => ⟨_, hfile cs r₂ hcalls hne, ⟨Switchboard.pairwise_methods_merge, fun x =>
    Switchboard.mem_methods_merge⟩, ⟨Switchboard.pairwise_enabled_merge, fun x => ?_⟩,
    Switchboard.prior_render _, fun names => Switchboard.merge_merge, ?_⟩, ?_⟩
  · rw [Switchboard.mem_enabled_merge]
    cases w.prior <;> simp [Prior.switchboard?]
  · intro cs' r₂' hcalls' hne' hsame
    rw [hfile cs r₂ hcalls hne, hfile cs' r₂' hcalls' hne', Switchboard.merge_congr hsame]
  · intro houtput hkeeps c₂ r₃ f r₄ hkept
    refine Hosting.stops_of_runGenerateFile ?_
    rw [hkept, Hosting.board_of_calls hcalls, hboard]
    exact hready houtput hkeeps

/-- A program with the plugin among others. Of the methods that were enabled one is gone. -/
def hosted : Hosting where
  slot := 2
  prior := .known { methods := [], enabled := ["User.put", "Old.get", "Item.list", "User.put"] }
  path := "mock.json"
  before := [Plugin.includes, Plugin.methods false]
  after := [Plugin.formatting ""]
  guests := by
    intro p hp
    rcases List.mem_append.mp hp with hp | hp
    · exact (guest_of_mem_builtin false false hp).1
    · obtain rfl := List.mem_singleton.mp hp
      exact (guest_formatting "").1

def callOf (name : String) (functions : List String) : FileContext where
  entry := "a"
  document := { path := "/a.thrift", dialect := .thrift }
  service :=
    { name
      functions := functions.map fun f =>
        { name := f, returns := .base "string",
          route := some { method := "GET", uri := "/" ++ f } } }

/-- The program before its first call. -/
def hostedRun : Run := (Stage.runParseEntry hosted.loaded { documents := [] } {}).2

/-- What a call leaves behind, computed. -/
def runAfter (c : FileContext) (r : Run) : Run := (Stage.runGenerateFile hosted.loaded c r).2

def namesAfter (c : FileContext) (r : Run) : Option (List String) :=
  (Stage.runGenerateFile hosted.loaded c r).1.toOption.map callNames

/-- One more call, of which was computed that it succeeds. -/
theorem calls_snoc {r : Run} {cs : List FileContext} {c : FileContext} {names : List String}
    (h : Calls hosted.loaded hosted.slot hostedRun cs r) (hnames : namesAfter c r = some names) :
    ∃ c', callNames c' = names ∧
      Calls hosted.loaded hosted.slot hostedRun (cs ++ [c']) (runAfter c r) := by
  obtain ⟨c', hc', hnames⟩ := Option.map_eq_some_iff.mp hnames
  exact ⟨c', hnames, h.snoc rfl (Prod.ext (Source.ok_of_toOption hc') rfl)⟩

theorem computed_hosted :
    let user := callOf "User" ["put", "get"]
    let item := callOf "Item" ["list"]
    (Stage.runParseEntry hosted.loaded { documents := [] } {}).1.toOption.isSome = true ∧
      namesAfter user hostedRun = some ["User.put", "User.get"] ∧
      namesAfter item (runAfter user hostedRun) = some ["Item.list"] ∧
      namesAfter (callOf "User" ["get"]) (runAfter item (runAfter user hostedRun)) =
        some ["User.get"] := by
  decide +kernel

theorem runParseEntry_hosted :
    ∃ c, Stage.runParseEntry hosted.loaded { documents := [] } {} = (.ok c, hostedRun) := by
  obtain ⟨c, hc⟩ := Option.isSome_iff_exists.mp computed_hosted.1
  exact ⟨c, Prod.ext (Source.ok_of_toOption hc) rfl⟩

theorem calls_hosted : ∃ cs r, Calls hosted.loaded hosted.slot hostedRun cs r ∧ cs ≠ [] ∧
    cs.flatMap callNames = ["User.put", "User.get", "Item.list", "User.get"] := by
  obtain ⟨-, hfirst, hsecond, hthird⟩ := computed_hosted
  obtain ⟨user, huser, hcalls⟩ := calls_snoc .nil hfirst
  obtain ⟨item, hitem, hcalls⟩ := calls_snoc hcalls hsecond
  obtain ⟨again, hagain, hcalls⟩ := calls_snoc hcalls hthird
  exact ⟨_, _, hcalls, by simp, by simp [huser, hitem, hagain]⟩

theorem switchboard_of_calls_hosted :
    ∃ b c₁ r₁ cs r₂, hosted.bus = .ok b ∧
      Stage.runParseEntry b { documents := [] } {} = (.ok c₁, r₁) ∧ Calls b hosted.slot r₁ cs r₂ ∧
      cs.flatMap callNames = ["User.put", "User.get", "Item.list", "User.get"] ∧
      ∃ board : Switchboard, r₂.output.find? "mock.json" = some board.render ∧
        board.methods = ["Item.list", "User.get", "User.put"] ∧
        board.enabled = ["Item.list", "User.put"] ∧
        Config.prior (some board.render) = .known board := by
  have hlisted : Lists ["Item.list", "User.get", "User.put"]
      (· ∈ ["User.put", "User.get", "Item.list", "User.get"]) :=
    ⟨by decide, fun x => by simp only [List.mem_cons]; tauto⟩
  have hlive : Lists ["Item.list", "User.put"] fun x =>
      x ∈ ["User.put", "User.get", "Item.list", "User.get"] ∧
        ∃ s, hosted.prior = .known s ∧ x ∈ s.enabled := by
    refine ⟨by decide, fun x => ⟨fun hx => ?_, ?_⟩⟩
    · have hx : x = "Item.list" ∨ x = "User.put" := by simpa using hx
      rcases hx with rfl | rfl <;> exact ⟨by decide, _, rfl, by decide⟩
    · rintro ⟨hx, s, hs, hs'⟩
      obtain rfl := Prior.known.inj hs
      simp only [List.mem_cons, List.not_mem_nil, or_false] at hx hs' ⊢
      rcases hx with rfl | rfl | rfl | rfl <;> simp_all
  obtain ⟨b, hb, hruns⟩ := switchboard_of_calls hosted
  obtain rfl := Except.ok.inj (hosted.bus_eq.symm.trans hb)
  obtain ⟨c₁, hstart⟩ := runParseEntry_hosted
  obtain ⟨cs, r₂, hcalls, hne, hnames⟩ := calls_hosted
  obtain ⟨board, hfile, hmethods, henabled, hprior, -⟩ :=
    ((hruns _ _).2 c₁ hostedRun hstart cs r₂ hcalls).1 hne
  rw [hnames] at hmethods henabled
  exact ⟨_, c₁, hostedRun, cs, r₂, hb, hstart, hcalls, hnames, board, hfile, hmethods.eq hlisted,
    henabled.eq hlive, hprior⟩

end Plugin
end ClientGen
