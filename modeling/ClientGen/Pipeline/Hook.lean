import ClientGen.Source.Failure
import ClientGen.Text.Quoted

/-! # Hooks

Work is done at named hooks. A hook has three phases, and handlers are registered
for one of them with a priority: those of the phase before run first, and within a
phase the lower priority runs first, equal ones in the order of registration. Each
handler is given the context that the one before it returned; the first failure
stops the run.

A handler works on one type of context. The bus holds handlers of any type `η`;
whoever triggers a hook says how an `η` serves its context, and a handler that
does not is foreign there.
-/

namespace ClientGen
namespace Pipeline

open Source (Failure)

def phases : List String := ["BEFORE", "ON", "AFTER"]

/-- The key of a phase of a hook. -/
def key (phase hook : String) : String := "__" ++ phase ++ "__::" ++ hook

/-- A handler of contexts `γ` that works on a state `σ`. -/
abbrev Handler (σ γ : Type) := γ → σ → Except Failure γ × σ

structure Registration (η : Type) where
  key : String
  priority : Int := 0
  /-- The plugin that registered it, empty for none. -/
  plugin : String := ""
  handler : η
deriving Inhabited

/-- All registrations, oldest first. -/
structure Bus (η : Type) where
  registrations : List (Registration η) := []
deriving Inhabited

/-- A named set of registrations, and perhaps a failure after making them. -/
structure Plugin (η : Type) where
  name : String
  registrations : List (Registration η) := []
  failure : Option Failure := none
deriving Inhabited

namespace Bus

variable {η σ γ : Type}

def register (b : Bus η) (r : Registration η) : Bus η :=
  { registrations := b.registrations ++ [r] }

def ordered (b : Bus η) (k : String) : List (Registration η) :=
  (b.registrations.filter (·.key == k)).mergeSort fun r s => decide (r.priority ≤ s.priority)

/-- Whether some phase of a hook has a handler. -/
def has (b : Bus η) (hook : String) : Bool :=
  phases.any fun p => b.registrations.any fun r => r.key == key p hook

/-- The bus after a plugin was applied. Its registrations stay even if it fails. -/
def apply (b : Bus η) (p : Plugin η) : Except Failure Unit × Bus η :=
  let owned := p.registrations.map fun r => { r with plugin := p.name }
  let result := match p.failure with
    | some f => .error (.context ("apply plugin " ++ p.name) f)
    | none => .ok ()
  (result, { registrations := b.registrations ++ owned })

/-- The bus of some plugins, applied in order up to the first failure. -/
def ofPlugins (ps : List (Plugin η)) : Except Failure (Bus η) :=
  ps.foldlM (fun b p =>
    match b.apply p with
    | (.ok (), b) => .ok b
    | (.error f, _) => .error f) {}

def label (r : Registration η) : String :=
  if r.plugin = "" then r.key else r.key ++ " (plugin " ++ r.plugin ++ ")"

/-- Runs handlers one after the other. With a failure comes the context of the
last handler that did not fail. -/
def runAll (serve : η → Option (Handler σ γ)) :
    List (Registration η) → γ → σ → Option Failure × γ × σ
  | [], c, s => (none, c, s)
  | r :: rest, c, s =>
    match serve r.handler with
    | none => (some .foreignHandler, c, s)
    | some handler =>
      match handler c s with
      | (.ok c, s) => runAll serve rest c s
      | (.error f, s) => (some (.context (label r) f), c, s)

def schedule (b : Bus η) (hook : String) : List (Registration η) :=
  phases.flatMap fun p => b.ordered (key p hook)

/-- Runs a hook. A hook without handlers is a failure. -/
def trigger (b : Bus η) (serve : η → Option (Handler σ γ)) (hook : String) (c : γ) (s : σ) :
    Option Failure × γ × σ :=
  if b.has hook then runAll serve (b.schedule hook) c s
  else (some (.plain ("no handler registered for hook " ++ Text.quoted hook)), c, s)

end Bus

end Pipeline
end ClientGen
