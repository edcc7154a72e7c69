import ClientGen.Load.Describe
import ClientGen.Proofs.Collection.PostOrder
import ClientGen.Proofs.Collection.Table
import ClientGen.Proofs.Source.Failure

/-! # The order of descriptors

A walk that meets a node before what comes next to it, and lists it behind that, gives
an order in which every node stands behind all that comes next to it, provided that no
node leads back to itself. `descriptorSet` is such a walk through the imports of
described files (`descriptorSet_lists`), and the files that `describe` describes have
the properties that this asks for (`describe_linked`).
-/

namespace ClientGen

open Source (Reporter Failure)
open Descriptor (Described FileDescriptor Outline)

/-! ## The walk through the imports -/

namespace Descriptor
namespace Described

def descriptor? (done : Described) (path : String) : Option FileDescriptor :=
  (done.files.find? path).map (·.descriptor)

def imports (done : Described) (path : String) : List String :=
  ((done.descriptor? path).map (·.dependencies)).getD []

def Imports (done : Described) (a b : String) : Prop := b ∈ done.imports a

/-- Described files in which no import is open: a file has its path for its name, what it
imports is described too, and no file leads back to itself. -/
structure Linked (done : Described) : Prop where
  named : ∀ path f, done.descriptor? path = some f → f.name = path
  closed : ∀ a b, done.Imports a b → b ∈ done.files.keys
  acyclic : ∀ a, ¬ Relation.TransGen done.Imports a a

end Described
end Descriptor

namespace Load

section Walk

variable {done : Described} {withImports : Bool}

/-- What the walk goes through from a file. -/
def needed (done : Described) (withImports : Bool) (path : String) : List String :=
  if withImports then done.imports path else []

/-- How many described files were not met. -/
def unmet (done : Described) (met : List String) : Nat :=
  (done.files.keys.filter (· ∉ met)).length

theorem unmet_le {met met' : List String} (hmore : ∀ a ∈ met, a ∈ met') :
    unmet done met' ≤ unmet done met := by
  refine List.Sublist.length_le (List.monotone_filter_right _ fun a hnew => ?_)
  exact decide_eq_true fun hold => of_decide_eq_true hnew (hmore a hold)

theorem unmet_cons_lt {met : List String} {path : String} (hgiven : path ∈ done.files.keys)
    (hnew : path ∉ met) : unmet done (path :: met) < unmet done met := by
  have hsplit : (done.files.keys.filter (· ∉ path :: met)) =
      (done.files.keys.filter (· ∉ met)).filter (· ≠ path) := by
    rw [List.filter_filter]
    refine List.filter_congr fun a _ => ?_
    simp [not_or]
  rw [unmet, unmet, hsplit]
  refine List.length_filter_lt_length_iff_exists.mpr ⟨path, List.mem_filter.mpr ⟨hgiven, ?_⟩, ?_⟩
  · simpa using hnew
  · simp

/-- From one listing to another by a walk through `todo`. -/
def Lists (done : Described) (withImports : Bool) (todo : List String) (l l' : Listing) : Prop :=
  ∃ out, PostOrder (needed done withImports) l.met todo l'.met out ∧
    l'.files.map some = l.files.map some ++ out.map done.descriptor?

theorem Lists.nil (l : Listing) : Lists done withImports [] l l :=
  ⟨[], .done _, by simp⟩

theorem Lists.cons {path : String} {todo : List String} {l₁ l₂ l₃ : Listing}
    (hfirst : Lists done withImports [path] l₁ l₂) (hrest : Lists done withImports todo l₂ l₃) :
    Lists done withImports (path :: todo) l₁ l₃ := by
  obtain ⟨out₁, hwalk₁, hlisted₁⟩ := hfirst
  obtain ⟨out₂, hwalk₂, hlisted₂⟩ := hrest
  exact ⟨out₁ ++ out₂, hwalk₁.cons hwalk₂, by simp [hlisted₁, hlisted₂]⟩

theorem Lists.unmet_le {todo : List String} {l l' : Listing}
    (hlists : Lists done withImports todo l l') : unmet done l'.met ≤ unmet done l.met := by
  obtain ⟨out, hwalk, -⟩ := hlists
  exact Load.unmet_le fun a hold => hwalk.mem_met.mpr (.inl hold)

/-- A walk through several files, one after the other. -/
theorem foldl_lists {step : Listing → String → Listing} {fuel : Nat}
    (heach : ∀ l path, unmet done l.met < fuel → path ∈ done.files.keys →
      Lists done withImports [path] l (step l path))
    {todo : List String} (hgiven : ∀ path ∈ todo, path ∈ done.files.keys) :
    ∀ l : Listing, unmet done l.met < fuel →
      Lists done withImports todo l (todo.foldl step l) := by
  induction todo with
  | nil => exact fun l _ => .nil l
  | cons path todo ih =>
    intro l henough
    have hfirst := heach l path henough (hgiven path List.mem_cons_self)
    have hrest := ih (fun p h => hgiven p (List.mem_cons_of_mem path h)) (step l path)
      (Nat.lt_of_le_of_lt hfirst.unmet_le henough)
    exact hfirst.cons hrest

theorem addFile_met {fuel : Nat} {l : Listing} {path : String} (hold : path ∈ l.met) :
    addFile done withImports (fuel + 1) l path = l := by
  simp [addFile, hold]

theorem addFile_unmet {fuel : Nat} {l : Listing} {path : String} {file : Descriptor.Compiled}
    (hfound : done.files.find? path = some file) (hnew : path ∉ l.met) :
    addFile done withImports (fuel + 1) l path =
      let inner := (needed done withImports path).foldl (addFile done withImports fuel)
        { l with met := path :: l.met }
      { inner with files := inner.files ++ [file.descriptor] } := by
  have hnext : needed done withImports path =
      if withImports then file.descriptor.dependencies else [] := by
    simp [needed, Described.imports, Described.descriptor?, hfound]
  simp [addFile, hnew, hfound, hnext]

/-- With fuel for the files not met yet, `addFile` takes the walk. -/
theorem addFile_lists (hclosed : ∀ a b, done.Imports a b → b ∈ done.files.keys)
    (withImports : Bool) (fuel : Nat) :
    ∀ (l : Listing) (path : String), unmet done l.met < fuel → path ∈ done.files.keys →
      Lists done withImports [path] l (addFile done withImports fuel l path) := by
  induction fuel with
  | zero => exact fun _ _ henough => absurd henough (Nat.not_lt_zero _)
  | succ fuel ih =>
    intro l path henough hgiven
    by_cases hold : path ∈ l.met
    · rw [addFile_met hold]
      exact ⟨[], .skip hold (.done _), by simp⟩
    · obtain ⟨file, hfound⟩ := Table.exists_find? hgiven
      have hnear : ∀ p ∈ needed done withImports path, p ∈ done.files.keys := by
        intro p h
        cases withImports with
        | false => exact absurd h List.not_mem_nil
        | true => exact hclosed path p h
      have hfewer := unmet_cons_lt hgiven hold
      obtain ⟨out, hwalk, hlisted⟩ := foldl_lists ih hnear { l with met := path :: l.met }
        (Nat.lt_of_lt_of_le hfewer (Nat.le_of_lt_succ henough))
      rw [addFile_unmet hfound hold]
      refine ⟨out ++ [path], .visit hold hwalk (.done _), ?_⟩
      simp [hlisted, Described.descriptor?, hfound]

/-- What `descriptorSet` lists, as the order of a walk. -/
theorem descriptorSet_walks (hclosed : ∀ a b, done.Imports a b → b ∈ done.files.keys)
    (withImports : Bool) {paths : List String} (hgiven : ∀ path ∈ paths, path ∈ done.files.keys) :
    ∃ met out, PostOrder (needed done withImports) [] paths met out ∧
      (descriptorSet done paths withImports).map some = out.map done.descriptor? := by
  have henough : unmet done ({} : Listing).met < done.files.length + 1 := by
    simp [unmet, Table.keys]
  obtain ⟨out, hwalk, hlisted⟩ :=
    foldl_lists (addFile_lists hclosed withImports _) hgiven {} henough
  exact ⟨_, out, hwalk, by simpa [descriptorSet] using hlisted⟩

theorem names_listed (hnamed : ∀ path f, done.descriptor? path = some f → f.name = path)
    {files : List FileDescriptor} {out : List String}
    (hlisted : files.map some = out.map done.descriptor?) : files.map (·.name) = out := by
  induction files generalizing out with
  | nil => cases out with
    | nil => rfl
    | cons a out => cases hlisted
  | cons f files ih => cases out with
    | nil => cases hlisted
    | cons a out =>
      obtain ⟨hfirst, hrest⟩ := List.cons.inj hlisted
      rw [List.map_cons, hnamed a f hfirst.symm, ih hrest]

end Walk

/-! ## Files that were described -/

/-- Each described file is there once, under its own name, and behind the files that it
imports. -/
structure Settled (done : Described) : Prop where
  once : done.files.keys.Nodup
  named : ∀ path f, done.descriptor? path = some f → f.name = path
  behind : Behind done.imports [] done.files.keys

namespace Settled

variable {done : Described}

theorem mem_keys_of_imports {a b : String} (hnear : done.Imports a b) : a ∈ done.files.keys := by
  by_contra hmissing
  have hunknown : done.files.find? a = none := Table.find?_eq_none_iff.mpr hmissing
  simp [Described.Imports, Described.imports, Described.descriptor?, hunknown] at hnear

theorem linked (hsettled : Settled done) : done.Linked where
  named := hsettled.named
  closed a b hnear := by
    obtain ⟨before, after, hsplit⟩ := List.append_of_mem (mem_keys_of_imports hnear)
    have hbehind := hsettled.behind
    rw [hsplit] at hbehind ⊢
    exact List.mem_append_left _ (by simpa using hbehind.split b hnear)
  acyclic a hcircle := by
    have hdown : ∀ b, Relation.TransGen done.Imports a b →
        done.files.keys.idxOf b < done.files.keys.idxOf a := by
      intro b hway
      induction hway with
      | single hnear =>
          exact hsettled.behind.idxOf_lt hsettled.once (mem_keys_of_imports hnear) hnear
      | tail _ hnear ih =>
        exact Nat.lt_trans
          (hsettled.behind.idxOf_lt hsettled.once (mem_keys_of_imports hnear) hnear) ih
    exact absurd (hdown a hcircle) (Nat.lt_irrefl _)

theorem empty : Settled {} :=
  ⟨List.nodup_nil, by simp [Described.descriptor?, Table.find?], trivial⟩

/-- A new file whose imports are described. -/
theorem insert (hsettled : Settled done) {file : Descriptor.Compiled} {path : String}
    (hnamed : file.descriptor.name = path) (hnew : path ∉ done.files.keys)
    (hknown : ∀ b ∈ file.descriptor.dependencies, b ∈ done.files.keys)
    (registry : Descriptor.Registry) :
    Settled { files := done.files.insert path file, registry } := by
  have hkeys : (done.files.insert path file).keys = done.files.keys ++ [path] := by
    rw [Table.keys_insert, if_neg hnew]
  have hown : Described.descriptor? ⟨done.files.insert path file, registry⟩ path =
      some file.descriptor := by
    simp [Described.descriptor?, Table.find?_insert]
  have hothers : ∀ a, a ≠ path →
      Described.descriptor? ⟨done.files.insert path file, registry⟩ a = done.descriptor? a := by
    intro a hother
    simp [Described.descriptor?, Table.find?_insert, hother]
  refine ⟨Table.nodup_keys_insert hsettled.once, fun a f hfound => ?_, ?_⟩
  · by_cases hsame : a = path
    · subst hsame
      rw [hown] at hfound
      exact Option.some.inj hfound ▸ hnamed
    · exact hsettled.named a f (hothers a hsame ▸ hfound)
  · have hold : Behind (Described.imports ⟨done.files.insert path file, registry⟩) []
        done.files.keys := by
      refine hsettled.behind.congr fun a h => ?_
      have hother : a ≠ path := fun hsame => hnew (hsame ▸ h)
      rw [Described.imports, Described.imports, hothers a hother]
    rw [hkeys]
    refine behind_append.mpr ⟨hold, fun b hnear => ?_, trivial⟩
    exact hknown b (by simpa [Described.imports, hown] using hnear)

end Settled

/-- The descriptors of requested files, for all files whose imports are described and
make no circle, and for all requests. With imports, they are those of the files that a
requested one leads to, each once and behind the files that it imports; without, those
of the requested files, each once and in the order of the first requests. -/
theorem descriptorSet_lists {done : Described} (hlinked : done.Linked) {paths : List String}
    (hgiven : ∀ path ∈ paths, path ∈ done.files.keys) :
    (∀ withImports, ∀ f ∈ descriptorSet done paths withImports,
      done.descriptor? f.name = some f) ∧
    (∀ withImports, ((descriptorSet done paths withImports).map (·.name)).Nodup) ∧
    (∀ path, path ∈ (descriptorSet done paths true).map (·.name) ↔
      ∃ start ∈ paths, Relation.ReflTransGen done.Imports start path) ∧
    (∀ before f after, descriptorSet done paths true = before ++ f :: after →
      ∀ path ∈ f.dependencies, path ∈ before.map (·.name)) ∧
    (∀ path, path ∈ (descriptorSet done paths false).map (·.name) ↔ path ∈ paths) ∧
    ((descriptorSet done paths false).map (·.name)).Pairwise
      fun a b => paths.idxOf a < paths.idxOf b := by
  have hfiled : ∀ withImports, ∀ f ∈ descriptorSet done paths withImports,
      done.descriptor? f.name = some f := by
    intro withImports f h
    obtain ⟨met, out, -, hlisted⟩ := descriptorSet_walks hlinked.closed withImports hgiven
    have hshown : some f ∈ out.map done.descriptor? := hlisted ▸ List.mem_map_of_mem h
    obtain ⟨path, -, hfound⟩ := List.mem_map.mp hshown
    rwa [hlinked.named path f hfound]
  have hwalk (withImports : Bool) : ∃ met, PostOrder (needed done withImports) [] paths met
      ((descriptorSet done paths withImports).map (·.name)) := by
    obtain ⟨met, out, hwalk, hlisted⟩ := descriptorSet_walks hlinked.closed withImports hgiven
    exact ⟨met, names_listed hlinked.named hlisted ▸ hwalk⟩
  obtain ⟨met, hwide⟩ := hwalk true
  obtain ⟨met', hnarrow⟩ := hwalk false
  refine ⟨hfiled, fun withImports => ?_, hwide.mem_iff, ?_, fun path => ?_, hnarrow.pairwise_idxOf⟩
  · obtain ⟨met, hwalk⟩ := hwalk withImports
    exact hwalk.fresh.1
  · intro before f after hsplit path hneeds
    have hbehind := hwide.behind hlinked.acyclic [] [] (by simp) (by simp)
    rw [hsplit, List.map_append, List.map_cons] at hbehind
    have hown : path ∈ needed done true f.name := by
      have hfound := hfiled true f (hsplit ▸ by simp)
      simpa [needed, Described.imports, hfound] using hneeds
    simpa using hbehind.split path hown
  · rw [hnarrow.mem_iff]
    refine ⟨?_, fun h => ⟨path, h, .refl⟩⟩
    rintro ⟨start, hstarted, hway⟩
    cases hway with
    | refl => exact hstarted
    | tail _ hnear => exact absurd hnear List.not_mem_nil

/-- Four files: the last imports two, and both of these the first. -/
def diamond : Described where
  files := [("base", []), ("left", ["base"]), ("right", ["base"]), ("top", ["left", "right"])].map
    fun (name, dependencies) => (name, { outline := default, descriptor := {
      name, dependencies, edition := "", package := "", messages := [], enums := [],
      extensions := [], services := [] } })

theorem diamond_settled : Settled diamond where
  once := by decide
  named path f hfound := by
    obtain ⟨file, hlisted, rfl⟩ := Option.map_eq_some_iff.mp hfound
    have hall : ∀ entry ∈ diamond.files, entry.2.descriptor.name = entry.1 := by decide
    exact hall _ (Table.mem_of_find? hlisted)
  behind := by decide

theorem descriptorSet_lists_diamond :
    (∀ path ∈ ["top", "left", "top"], path ∈ diamond.files.keys) ∧
      (∀ before f after, descriptorSet diamond ["top", "left", "top"] true = before ++ f :: after →
        ∀ path ∈ f.dependencies, path ∈ before.map (·.name)) ∧
      (descriptorSet diamond ["top", "left", "top"] true).map (·.name) =
        ["base", "left", "right", "top"] ∧
      (descriptorSet diamond ["top", "left", "top"] false).map (·.name) = ["top", "left"] :=
  have hgiven : ∀ path ∈ ["top", "left", "top"], path ∈ diamond.files.keys := by decide
  ⟨hgiven, (descriptorSet_lists diamond_settled.linked hgiven).2.2.2.1, by decide, by decide⟩

/-! ## Describing files -/

theorem outlineOf_path {path : String} {tree : Descriptor.FileSyntax} {o : Outline}
    (houtlined : Descriptor.outlineOf path tree = .ok o) : o.path = path := by
  simp only [Descriptor.outlineOf] at houtlined
  split at houtlined
  · obtain ⟨_, hfailed, -⟩ := Source.ok_of_bind houtlined
    exact nomatch hfailed
  · obtain ⟨gathered, -, hrest⟩ := Source.ok_of_bind houtlined
    exact Except.ok.inj hrest ▸ rfl

/-- The path of an outline is that of its file. -/
theorem readOutline_path {path source : String} {isStandard : Bool} {o : Outline}
    (hread : Descriptor.readOutline path source isStandard = .ok o) : o.path = path := by
  unfold Descriptor.readOutline at hread
  cases hparsed : Descriptor.parse source with
  | error place => simp [hparsed, Descriptor.complain] at hread
  | ok tree =>
    simp only [hparsed] at hread
    obtain ⟨outline, houtlined, hread⟩ := Source.ok_of_bind hread
    obtain ⟨checked, -, hread⟩ := Source.ok_of_bind hread
    have hsame : o.path = outline.path := (Except.ok.inj hread).symm ▸ rfl
    exact hsame.trans (outlineOf_path houtlined)

/-- What a file adds to those described before. -/
theorem add_ok {done done' : Described} {o : Outline} (hadded : done.add o = .ok done') :
    ∃ file registry, done' = { files := done.files.insert o.path file, registry } ∧
      file.descriptor.name = o.path ∧
      file.descriptor.dependencies = o.body.imports.map (·.path.text) := by
  unfold Described.add at hadded
  obtain ⟨⟨view, registry⟩, -, hadded⟩ := Source.ok_of_bind hadded
  dsimp only at hadded
  split at hadded
  · obtain ⟨-, -, hadded⟩ := Source.ok_of_bind hadded
    exact ⟨_, registry, (Except.ok.inj hadded).symm, rfl, rfl⟩
  · obtain ⟨-, -, hadded⟩ := Source.ok_of_bind hadded
    obtain ⟨-, -, hadded⟩ := Source.ok_of_bind hadded
    exact ⟨_, registry, (Except.ok.inj hadded).symm, rfl, rfl⟩

/-- What describing files does with those described before, if the files `around` are
not finished. -/
structure Extends (around : List String) (done done' : Described) : Prop where
  settled : Settled done → Settled done'
  kept : ∀ path ∈ done.files.keys, path ∈ done'.files.keys
  outside : ∀ path ∈ done'.files.keys, path ∈ done.files.keys ∨ path ∉ around

namespace Extends

variable {around : List String} {done₁ done₂ done₃ : Described}

theorem refl (done : Described) : Extends around done done :=
  ⟨id, fun _ => id, fun _ => .inl⟩

theorem trans (hfirst : Extends around done₁ done₂) (hrest : Extends around done₂ done₃) :
    Extends around done₁ done₃ where
  settled := hrest.settled ∘ hfirst.settled
  kept path h := hrest.kept path (hfirst.kept path h)
  outside path h := (hrest.outside path h).elim (hfirst.outside path) .inr

end Extends

/-- Files described one after the other. -/
theorem foldlM_extends {α : Type} (around : List String) (path : α → String)
    {step : Described → α → Except Failure Described} {todo : List α}
    (heach : ∀ a ∈ todo, ∀ done done', step done a = .ok done' →
      Extends around done done' ∧ path a ∈ done'.files.keys) :
    ∀ {done done' : Described}, todo.foldlM step done = .ok done' →
      Extends around done done' ∧ ∀ a ∈ todo, path a ∈ done'.files.keys := by
  induction todo with
  | nil =>
    intro done done' hdescribed
    exact Except.ok.inj hdescribed ▸ ⟨.refl done, by simp⟩
  | cons a todo ih =>
    intro done done' hdescribed
    rw [List.foldlM_cons] at hdescribed
    obtain ⟨next, hfirst, hrest⟩ := Source.ok_of_bind hdescribed
    obtain ⟨hgrown, hhere⟩ := heach a List.mem_cons_self done next hfirst
    obtain ⟨hgrown', hlater⟩ := ih (fun b h => heach b (List.mem_cons_of_mem a h)) hrest
    exact ⟨hgrown.trans hgrown', List.forall_mem_cons.mpr ⟨hgrown'.kept _ hhere, hlater⟩⟩

/-- A file whose imports were described while it was not finished. -/
theorem Extends.add {around : List String} {done next done' : Described} {o : Outline}
    (hgrown : Extends (around ++ [o.path]) done next) (hapart : o.path ∉ around)
    (hnew : o.path ∉ done.files.keys)
    (himported : ∀ i ∈ o.body.imports, i.path.text ∈ next.files.keys)
    (hadded : next.add o = .ok done') :
    Extends around done done' ∧ o.path ∈ done'.files.keys := by
  obtain ⟨file, registry, rfl, hnamed, hneeds⟩ := add_ok hadded
  have hunfinished : o.path ∉ next.files.keys := fun h =>
    (hgrown.outside o.path h).elim hnew fun houtside => houtside (by simp)
  have hknown : ∀ b ∈ file.descriptor.dependencies, b ∈ next.files.keys := by
    rw [hneeds]
    exact List.forall_mem_map.mpr himported
  refine ⟨⟨fun hsettled => ?_, fun path h => ?_, fun path h => ?_⟩, ?_⟩
  · exact (hgrown.settled hsettled).insert hnamed hunfinished hknown registry
  · exact Table.mem_keys_insert.mpr (.inr (hgrown.kept path h))
  · rcases Table.mem_keys_insert.mp h with rfl | h
    · exact .inr hapart
    · exact (hgrown.outside path h).imp_right fun houtside hinner =>
        houtside (List.mem_append_left _ hinner)
  · exact Table.mem_keys_insert.mpr (.inl rfl)

/-- Describing a file describes what it imports first, and nothing around it. -/
theorem describeFile_extends (system : Files.System) (fuel : Nat) :
    ∀ {around : List String} {missing path : String} {done done' : Described},
      path ∉ around → describeFile system fuel around missing path done = .ok done' →
      Extends around done done' ∧ path ∈ done'.files.keys := by
  induction fuel with
  | zero => exact fun _ hdescribed => nomatch hdescribed
  | succ fuel ih =>
    intro around missing path done done' hapart hdescribed
    simp only [describeFile] at hdescribed
    split at hdescribed
    · rename_i hknown
      exact Except.ok.inj hdescribed ▸ ⟨.refl done, Table.has_iff.mp hknown⟩
    · rename_i hnew
      obtain ⟨source?, -, hdescribed⟩ := Source.ok_of_bind hdescribed
      match source? with
      | none => exact nomatch hdescribed
      | some (source, isStandard) =>
        dsimp only at hdescribed
        split at hdescribed
        · exact nomatch hdescribed
        · rename_i outline hread
          split at hdescribed
          · exact nomatch hdescribed
          · rename_i huncircled
            obtain ⟨next, himported, hdescribed⟩ := Source.ok_of_bind hdescribed
            split at hdescribed
            · exact nomatch hdescribed
            · rename_i hadded
              rw [← Except.ok.inj hdescribed]
              have houtside : ∀ i ∈ outline.body.imports, i.path.text ∉ around ++ [path] :=
                fun i h hwithin => List.find?_eq_none.mp huncircled i h
                  (List.contains_iff_mem.mpr hwithin)
              obtain ⟨hgrown, hthere⟩ := foldlM_extends (around ++ [path]) (fun i => i.path.text)
                (fun i h _ _ => ih (houtside i h)) himported
              obtain rfl := readOutline_path hread
              exact hgrown.add hapart (fun h => hnew (Table.has_iff.mpr h)) hthere hadded

/-- What `describe` gives are the descriptors of the requested files among files in which
no import is open. -/
theorem describe_linked {system : Files.System} {paths : List String} {withImports : Bool}
    {r r' : Reporter} {files : List FileDescriptor}
    (hdescribed : describe system paths withImports r = (.ok files, r')) :
    ∃ done : Described, done.Linked ∧ (∀ path ∈ paths, path ∈ done.files.keys) ∧
      files = descriptorSet done paths withImports := by
  unfold describe at hdescribed
  dsimp only at hdescribed
  split at hdescribed
  · rename_i done hcompiled
    obtain ⟨hgrown, hgiven⟩ := foldlM_extends [] id
      (fun path _ _ _ => describeFile_extends system _ List.not_mem_nil) hcompiled
    refine ⟨done, (hgrown.settled .empty).linked, hgiven, ?_⟩
    exact (Except.ok.inj (Prod.mk.inj hdescribed).1).symm
  · exact nomatch (Prod.mk.inj hdescribed).1
  · exact nomatch (Prod.mk.inj hdescribed).1

end Load
end ClientGen
