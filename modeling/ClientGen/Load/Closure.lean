import ClientGen.Files.Url
import ClientGen.Load.Check
import ClientGen.Load.Compile

/-! # Documents and what they include

The documents of some entries and of everything that they include, depth first,
each path once. Parsed documents are kept in a cache of bounded size; a document
that was dropped from it is parsed anew when it is needed again.
-/

namespace ClientGen
namespace Load

open Source (Reporter Failure Code Diagnostic)

/-- Documents by the target they were loaded for, the one used last first. A
document is given by its number among all that were parsed. -/
structure Cache where
  size : Nat
  entries : Table Nat := []
deriving Repr, Inhabited

namespace Cache

/-- The document of a target, without using it. -/
def peek? (c : Cache) (uri : String) : Option Nat := c.entries.find? uri

/-- Marks a target as used last. -/
def touch (c : Cache) (uri : String) : Cache :=
  match c.entries.find? uri with
  | some n => { c with entries := (uri, n) :: c.entries.filter (·.1 ≠ uri) }
  | none => c

/-- Adds a target; the one used longest ago makes room. -/
def add (c : Cache) (uri : String) (n : Nat) : Cache :=
  { c with entries := ((uri, n) :: c.entries.filter (·.1 ≠ uri)).take c.size }

end Cache

/-- An include that no file answers. -/
structure Unresolved where
  file : String
  path : String
deriving DecidableEq, Repr, Inhabited

structure Walk where
  cache : Cache
  /-- Every document parsed so far, by number. -/
  parsed : List Document := []
  /-- The numbers of the documents of the result, in order. -/
  order : List Nat := []
  /-- The paths of the documents of the result. -/
  seen : List String := []
  /-- Includes that no file answered, in order. -/
  unresolved : List Unresolved := []
  reporter : Reporter
deriving Repr, Inhabited

/-- A step of a walk: a value or a failure, and the state after it. -/
abbrev Step (α : Type) := Walk → Except Failure α × Walk

/-- Where files come from and how their comments are read. -/
structure Loader where
  system : Files.System
  revise : Bool := true

namespace Loader

/-- The number of the document at a target, from the cache or parsed. -/
def load (l : Loader) (uri : String) : Step Nat := fun w =>
  match w.cache.peek? uri with
  | some n => (.ok n, { w with cache := w.cache.touch uri })
  | none =>
    match l.system.openAt uri with
    | .error e => (.error e, w)
    | .ok [] => (.error .absentDocument, w)
    | .ok (f :: _) =>
      match compileFile f l.revise w.reporter with
      | (.error e, r) => (.error e, { w with reporter := r })
      | (.ok none, r) => (.error .absentDocument, { w with reporter := r })
      | (.ok (some d), r) =>
        let n := w.parsed.length
        (.ok n, { w with reporter := r, parsed := w.parsed ++ [d], cache := w.cache.add uri n })

def resolve? (l : Loader) (cache : Cache) (source path : String) : Option String :=
  (Target.candidates source path).find? fun c =>
    (cache.peek? c).isSome || (l.system.openAt c).toOption.isSome

def unresolvedInclude (source path : String) : Diagnostic :=
  { location := { uri := source }, code := Code.unresolvedInclude,
    message := "cannot resolve include " ++ path }

def followIncludes (l : Loader) (visit : Nat → Step Unit) (source : String) :
    List String → Step Unit
  | [], w => (.ok (), w)
  | path :: rest, w =>
    match l.resolve? w.cache source path with
    | none =>
      let d := unresolvedInclude source path
      let w' := { w with reporter := w.reporter.report d }
      if w.reporter.isFatal d then (.error (.diagnostic d), w')
      else followIncludes l visit source rest
        { w' with unresolved := w.unresolved ++ [⟨source, path⟩] }
    | some uri =>
      match l.load uri w with
      | (.error e, w) => (.error e, w)
      | (.ok n, w) =>
        match visit n w with
        | (.error e, w) => (.error e, w)
        | (.ok (), w) => followIncludes l visit source rest w

/-- Adds a document and what it includes to the result, unless its path is there. -/
def visit (l : Loader) : Nat → Nat → Step Unit
  | 0, _, w => (.ok (), w)
  | fuel + 1, n, w =>
    match w.parsed[n]? with
    | none => (.error .absentDocument, w)
    | some d =>
      if w.seen.contains d.path then (.ok (), w)
      else
        followIncludes l (visit l fuel) d.path d.includes
          { w with seen := d.path :: w.seen, order := w.order ++ [n] }

def markEntry (n : Nat) (w : Walk) : Walk :=
  { w with parsed := w.parsed.modify n fun d => { d with entry := true } }

/-- Visits the entries one after the other. Each level of includes adds a path,
so the number of paths bounds the depth. -/
def visitEntries (l : Loader) : List String → Step Unit
  | [], w => (.ok (), w)
  | entry :: rest, w =>
    match l.load (Target.normalize entry) w with
    | (.error e, w) => (.error e, w)
    | (.ok n, w) =>
      match l.visit (2 * l.system.bound + 2) n (markEntry n w) with
      | (.error e, w) => (.error e, w)
      | (.ok (), w) => visitEntries l rest w

end Loader

def Walk.docs (w : Walk) : List Document := w.order.filterMap fun n => w.parsed[n]?

def defaultCacheSize : Nat := 256

def cacheTooSmall : Diagnostic := { code := Code.config, message := "cache size must be positive" }

/-- The result of loading: the documents or why there are none, the diagnostics,
and the includes that no file answered. -/
structure Loaded where
  docs : Except Failure (List Document)
  reporter : Reporter
  unresolved : List Unresolved := []

/-- Loads some entries and everything that they include, and checks the type
names. -/
def Loader.loadAll (l : Loader) (cacheSize : Nat) (entries : List String) (r : Reporter) : Loaded :=
  match l.visitEntries entries { cache := { size := cacheSize }, reporter := r } with
  | (.error e, w) => { docs := .error e, reporter := w.reporter, unresolved := w.unresolved }
  | (.ok (), w) =>
    { docs := .ok w.docs, reporter := check w.docs w.reporter, unresolved := w.unresolved }

end Load
end ClientGen
