import ClientGen.Proofs.Generate.Modules
import ClientGen.Proofs.Load.Names

/-! # Where modules are written

The file of a module has a directory, a stem and an extension. Two modules of a run
have one path exactly if they have all three in common (`generate_overwrites_iff`), and
then only the later one is written. Nothing keeps names from doing so: the client of a
service `Types` takes the place of the types (`types_overwritten`), and two entries may
have names that are cleaned to one directory.
-/

namespace ClientGen

/-! ## Stems -/

namespace Path

/-- A name of a file up to its first dot. -/
structure Stem (s : String) : Prop where
  ne_empty : s ≠ ""
  dot : '.' ∉ s.toList
  slash : '/' ∉ s.toList

namespace Stem

variable {s t e f : String}

theorem plain (h : Stem s) : Plain s where
  ne_empty := h.ne_empty
  ne_dot := by
    rintro rfl
    exact h.dot (by decide)
  slash := h.slash
  ne_up := by
    rintro rfl
    exact h.dot (by decide)

theorem plain_append (h : Stem s) (he : '/' ∉ e.toList) : Plain (s ++ "." ++ e) := by
  obtain ⟨c, cs, hcs⟩ := List.exists_cons_of_ne_nil
    (fun hnil => h.ne_empty (String.toList_eq_nil_iff.mp hnil))
  have hchars : (s ++ "." ++ e).toList = c :: (cs ++ '.' :: e.toList) := by simp [hcs]
  have hfirst : c ≠ '.' := by
    rintro rfl
    exact h.dot (by simp [hcs])
  have hne : ∀ rest, s ++ "." ++ e ≠ String.ofList ('.' :: rest) := by
    intro rest heq
    rw [heq, String.toList_ofList] at hchars
    exact hfirst (List.cons.inj hchars).1.symm
  refine ⟨⟨?_, hne [], ?_⟩, hne ['.']⟩
  · intro hempty
    rw [hempty] at hchars
    cases hchars
  · have hslash := h.slash
    simp only [String.toList_append, List.mem_append, not_or]
    exact ⟨⟨hslash, by decide⟩, he⟩

theorem append_inj (h : Stem s) (h' : Stem t) :
    s ++ "." ++ e = t ++ "." ++ f ↔ s = t ∧ e = f := by
  -- The stem is what stands before the first dot.
  have hbefore : ∀ {s e : String}, Stem s →
      (s ++ "." ++ e).toList.takeWhile (· ≠ '.') = s.toList := by
    intro s e h
    have hchars : (s ++ "." ++ e).toList = s.toList ++ '.' :: e.toList := by simp
    have hkeep : ∀ c ∈ s.toList, decide (c ≠ '.') = true := by
      intro c hc
      apply decide_eq_true
      rintro rfl
      exact h.dot hc
    rw [hchars, List.takeWhile_append_of_pos hkeep]
    simp
  constructor
  · intro heq
    have hstem : s = t := by
      apply String.toList_inj.mp
      rw [← hbefore (e := e) h, heq, hbefore h']
    subst hstem
    exact ⟨rfl, by simpa [String.append_assoc] using heq⟩
  · rintro ⟨rfl, rfl⟩
    rfl

end Stem
end Path

/-! ## Kebab case -/

namespace Text

open Source (IsWord)
open Source.Lexer (isIdentifierPart)

/-- The code points of blanks. -/
def spaceCodes : List Nat :=
  [9, 10, 11, 12, 13, 32, 0x85, 0xA0, 0x1680, 0x2000, 0x2001, 0x2002, 0x2003, 0x2004, 0x2005,
    0x2006, 0x2007, 0x2008, 0x2009, 0x200A, 0x2028, 0x2029, 0x202F, 0x205F, 0x3000]

theorem mem_spaceCodes {c : Char} (h : isSpace c = true) : c.toNat ∈ spaceCodes := by
  simp only [isSpace, Bool.or_eq_true, Bool.and_eq_true, decide_eq_true_eq, beq_iff_eq] at h
  simp only [spaceCodes, List.mem_cons, List.not_mem_nil, or_false]
  omega

theorem isSpace_eq_false_of_part {c : Char} (h : isIdentifierPart c = true) :
    isSpace c = false := by
  have hnone : ∀ n ∈ spaceCodes, isIdentifierPart (Char.ofNat n) = false := by decide +kernel
  by_contra hspace
  have hpart := hnone c.toNat (mem_spaceCodes (by simpa using hspace))
  rw [Char.ofNat_toNat, h] at hpart
  cases hpart

theorem part_toLower {c : Char} (h : isCapital c = true) : isIdentifierPart c.toLower = true := by
  have hall : ∀ n < 26, isIdentifierPart (Char.ofNat (65 + n)).toLower = true := by decide +kernel
  simp only [isCapital, Bool.and_eq_true, decide_eq_true_eq] at h
  have hfirst : 65 ≤ c.toNat := h.1
  have hlast : c.toNat ≤ 90 := h.2
  have hlower := hall (c.toNat - 65) (by omega)
  rwa [Nat.add_sub_of_le hfirst, Char.ofNat_toNat] at hlower

theorem trim_word {s : String} (h : IsWord s) : trim s = s := by
  have hkeep : ∀ cs : List Char, (∀ c ∈ cs, isSpace c = false) → cs.dropWhile isSpace = cs := by
    intro cs hcs
    cases cs with
    | nil => rfl
    | cons c rest => rw [List.dropWhile_cons_of_neg (by simp [hcs c List.mem_cons_self])]
  have hspace : ∀ c ∈ s.toList, isSpace c = false :=
    fun c hc => isSpace_eq_false_of_part (h.part c hc)
  unfold trim trimBy dropTrailing
  rw [hkeep s.toList hspace, hkeep s.toList.reverse fun c hc => hspace c (List.mem_reverse.mp hc),
    List.reverse_reverse, String.ofList_toList]

theorem isCapital_of_caseClass {c : Char} (h : caseClass c = .capital) : isCapital c = true := by
  unfold caseClass at h
  split at h
  · assumption
  · split_ifs at h

/-- Each character gives a piece of its own. -/
theorem kebabAux_cons (before : CaseClass) (c : Char) (cs : List Char) :
    ∃ piece, kebabAux before (c :: cs) = piece ++ kebabAux (caseClass c) cs ∧ piece ≠ [] ∧
      ∀ a ∈ piece, a = '-' ∨ a = c ∨ isCapital c = true ∧ a = c.toLower := by
  refine ⟨_, rfl, ?_, ?_⟩
  · split
    case h_1 => split <;> simp
    case h_8 => split <;> simp
    all_goals simp
  · intro a ha
    have hlower : caseClass c = .capital → a = c.toLower →
        a = '-' ∨ a = c ∨ isCapital c = true ∧ a = c.toLower :=
      fun hclass heq => .inr (.inr ⟨isCapital_of_caseClass hclass, heq⟩)
    split at ha
    case h_1 hclass _ => split at ha <;> grind
    all_goals grind

theorem mem_kebabAux {before : CaseClass} {a : Char} {cs : List Char} (h : a ∈ kebabAux before cs) :
    a = '-' ∨ a ∈ cs ∨ ∃ c ∈ cs, isCapital c = true ∧ a = c.toLower := by
  induction cs generalizing before with
  | nil => cases h
  | cons c cs ih =>
      obtain ⟨piece, heq, -, hpiece⟩ := kebabAux_cons before c cs
      rw [heq] at h
      rcases List.mem_append.mp h with h | h
      · rcases hpiece a h with hdash | rfl | hlower
        · exact .inl hdash
        · exact .inr (.inl List.mem_cons_self)
        · exact .inr (.inr ⟨c, List.mem_cons_self, hlower⟩)
      · rcases ih h with hdash | hmem | ⟨c', hc', hlower⟩
        · exact .inl hdash
        · exact .inr (.inl (List.mem_cons_of_mem c hmem))
        · exact .inr (.inr ⟨c', List.mem_cons_of_mem c hc', hlower⟩)

theorem stem_kebab {s : String} (h : IsWord s) : Path.Stem (kebab s) := by
  have hpart : ∀ a ∈ (kebab s).toList, a = '-' ∨ isIdentifierPart a = true := by
    intro a ha
    rw [kebab, String.toList_ofList, trim_word h] at ha
    rcases mem_kebabAux ha with hdash | hmem | ⟨c, -, hcapital, rfl⟩
    · exact .inl hdash
    · exact .inr (h.part a hmem)
    · exact .inr (part_toLower hcapital)
  refine ⟨?_, ?_, ?_⟩
  · intro hempty
    obtain ⟨c, cs, hcs⟩ := List.exists_cons_of_ne_nil
      (fun hnil => h.ne_empty (String.toList_eq_nil_iff.mp hnil))
    have hnil : (kebab s).toList = [] := by rw [hempty]; rfl
    obtain ⟨piece, heq, hpiece, -⟩ := kebabAux_cons .other c cs
    rw [kebab, String.toList_ofList, trim_word h, hcs, heq] at hnil
    exact hpiece (List.append_eq_nil_iff.mp hnil).1
  · intro hdot
    exact absurd (hpart '.' hdot) (by decide +kernel)
  · intro hslash
    exact absurd (hpart '/' hslash) (by decide +kernel)

end Text

/-! ## Files of modules -/

namespace Generate

open Source (IsWord)

namespace Module

variable {o : Options} {m m' : Module}

def directory (o : Options) : Module → String
  | types e _ => Path.join [o.typesDirectory, e.name]
  | schema e _ => e.name
  | client e _ _ => e.name
  | mocks e _ _ => e.name
  | index e _ => e.name
  | root => ""

/-- The name of its file up to the first dot. -/
def stem : Module → String
  | types _ _ => "types"
  | schema _ _ => "schema"
  | client _ _ s => Text.kebab s.name
  | mocks _ _ s => Text.kebab s.name
  | index _ _ => "index"
  | root => "index"

def extension : Module → String
  | schema _ _ => "json"
  | mocks _ _ _ => "mock.ts"
  | _ => "ts"

/-- Whether two modules have the same file: one directory up to cleaning, one stem and
one extension. -/
def Clashes (o : Options) (m m' : Module) : Prop :=
  Path.clean (m.directory o) = Path.clean (m'.directory o) ∧ m.stem = m'.stem ∧
    m.extension = m'.extension

def Worded : Module → Prop
  | client _ _ s => IsWord s.name
  | mocks _ _ s => IsWord s.name
  | _ => True

theorem stem_of_worded (h : m.Worded) : Path.Stem m.stem := by
  have hfixed : ∀ s ∈ ["types", "schema", "index"], Path.Stem s := by
    have hall : ∀ s ∈ ["types", "schema", "index"], s ≠ "" ∧ '.' ∉ s.toList ∧ '/' ∉ s.toList := by
      decide
    intro s hs
    obtain ⟨hempty, hdot, hslash⟩ := hall s hs
    exact ⟨hempty, hdot, hslash⟩
  cases m with
  | client e d s => exact Text.stem_kebab h
  | mocks e d s => exact Text.stem_kebab h
  | types e d => exact hfixed "types" (by simp)
  | schema e d => exact hfixed "schema" (by simp)
  | index e d => exact hfixed "index" (by simp)
  | root => exact hfixed "index" (by simp)

theorem slash_extension (m : Module) : '/' ∉ m.extension.toList := by
  have hall : ∀ x ∈ ["ts", "json", "mock.ts"], '/' ∉ x.toList := by decide
  apply hall
  cases m <;> simp [extension]

theorem path_eq (h : m.Worded) :
    m.path o = Path.join [m.directory o, m.stem ++ "." ++ m.extension] := by
  have hstem := stem_of_worded h
  have hfile := hstem.plain_append (slash_extension m)
  cases m with
  | types e d => exact Path.join_join _ _ hfile
  | schema e d => rfl
  | client e d s =>
      rw [String.append_assoc] at hfile ⊢
      exact Path.join_append _ hstem.plain hfile
  | mocks e d s =>
      rw [String.append_assoc] at hfile ⊢
      exact Path.join_append _ hstem.plain hfile
  | index e d => rfl
  | root =>
      have hroot : "index.ts" = Path.join ["", "index.ts"] := by decide
      exact hroot

theorem path_eq_path_iff (h : m.Worded) (h' : m'.Worded) :
    m.path o = m'.path o ↔ m.Clashes o m' := by
  have hstem := stem_of_worded h
  have hstem' := stem_of_worded h'
  rw [path_eq h, path_eq h', Path.join_eq_join_iff (hstem.plain_append (slash_extension m))
    (hstem'.plain_append (slash_extension m')), hstem.append_inj hstem', Clashes]

end Module

/-! ## Modules of a run -/

namespace Rendered

variable {o : Options} {origin : Origin} (R : Rendered o origin)

theorem word_of_mem_services {path : String} {d : Document} {s : Service}
    (h : R.job.docs.find? path = some d) (hs : s ∈ d.services) : IsWord s.name := by
  obtain ⟨d', hd', rfl, -⟩ := R.mem_docs h
  obtain ⟨-, hloaded⟩ := Load.documentAt_of_loadAll R.loads
  obtain ⟨uri, hfound⟩ := hloaded d' hd'
  obtain ⟨f, fs, -, hcompile⟩ := Load.Loader.documentAt_eq_ok hfound
  exact Load.word_of_compileFile hcompile s hs

theorem worded_of_mem {m : Module} (h : m ∈ R.modules) : m.Worded := by
  rcases List.mem_append.mp h with h | h
  · obtain ⟨e, -, hm⟩ := List.mem_flatMap.mp h
    obtain ⟨d, hd, hm⟩ := Job.mem_modulesAt.mp hm
    rcases mem_entryModules.mp hm with rfl | ⟨-, rfl⟩ | ⟨s, hs, hm⟩ | rfl
    · trivial
    · trivial
    · have hword := R.word_of_mem_services hd hs
      rcases (mem_serviceModules.mp hm).2 with ⟨-, rfl⟩ | ⟨-, rfl⟩
      · exact hword
      · exact hword
    · trivial
  · split at h
    · obtain rfl := List.mem_singleton.mp h
      trivial
    · cases h

theorem map_path_files : R.files.map (·.1) = R.modules.map (Module.path o) := by
  have hpaths : ∀ {ms : List Module} {files : List (String × String)},
      R.job.Holds R.entries ms files → files.map (·.1) = ms.map (Module.path o) := by
    intro ms files h
    induction h with
    | nil => rfl
    | cons hfile _ ih =>
        rw [List.map_cons, List.map_cons, hfile.1, ih]
        rfl
  exact hpaths R.holds

/-- Every file is written exactly if no two have one path. -/
theorem output_perm_iff : R.output.Perm R.files ↔ (R.files.map (·.1)).Nodup := by
  have hsorted : R.output.Perm (Table.ofList R.files) := Table.sorted_perm _
  constructor
  · intro hperm
    have hkeys : ((Table.ofList R.files).map (·.1)).Nodup := Table.nodup_keys_ofList R.files
    exact ((hsorted.symm.trans hperm).map (·.1)).nodup_iff.mp hkeys
  · intro hnodup
    rw [Table.ofList_of_nodup hnodup] at hsorted
    exact hsorted

theorem nodup_files_iff :
    (R.files.map (·.1)).Nodup ↔ R.modules.Pairwise fun m m' => ¬ m.Clashes o m' := by
  rw [map_path_files, List.Nodup, List.pairwise_map]
  apply List.Pairwise.iff_of_mem
  intro m m' hm hm'
  exact not_congr (Module.path_eq_path_iff (R.worded_of_mem hm) (R.worded_of_mem hm'))

/-- Names that keep all modules of a run apart: the directories of entries are different,
and so are those of their types; none is the root, if that has an index; and the clients
of an entry are called differently, and not like its types or its index. -/
structure Separate : Prop where
  entries : (R.entries.map fun e => Path.clean e.name).Nodup
  types : (R.entries.map fun e => Path.clean (Path.join [o.typesDirectory, e.name])).Nodup
  root : o.aggregate = true → ∀ e ∈ R.entries, Path.clean e.name ≠ "."
  services : ∀ e ∈ R.entries, ∀ d, R.job.docs.find? e.path = some d →
    ((d.services.filter isRouted).map fun s => Text.kebab s.name).Nodup ∧
      ∀ s ∈ d.services, isRouted s = true → Text.kebab s.name ∉ ["types", "index"]

end Rendered

section Separate

variable {o : Options} {e : Entry} {d : Document} {m m' : Module}

theorem stem_of_mem_serviceModules {s : Service} (h : m ∈ serviceModules o e d s) :
    m.directory o = e.name ∧ m.stem = Text.kebab s.name ∧ m.extension ≠ "json" := by
  rcases (mem_serviceModules.mp h).2 with ⟨-, rfl⟩ | ⟨-, rfl⟩
  · exact ⟨rfl, rfl, by simp [Module.extension]⟩
  · exact ⟨rfl, rfl, by simp [Module.extension]⟩

/-- Only the types of an entry are called so. -/
theorem eq_types_of_stem
    (hstems : ∀ s ∈ d.services, isRouted s = true → Text.kebab s.name ∉ ["types", "index"])
    (h : m ∈ entryModules o e d) :
    m = .types e d ∨ m.stem ≠ "types" ∧ m.directory o = e.name := by
  rcases mem_entryModules.mp h with rfl | ⟨-, rfl⟩ | ⟨s, hs, hm⟩ | rfl
  · exact .inl rfl
  · exact .inr ⟨by simp [Module.stem], rfl⟩
  · obtain ⟨hdirectory, hstem, -⟩ := stem_of_mem_serviceModules hm
    have hnone := hstems s hs (mem_serviceModules.mp hm).1
    rw [← hstem, List.mem_cons, not_or] at hnone
    exact .inr ⟨hnone.1, hdirectory⟩
  · exact .inr ⟨by simp [Module.stem], rfl⟩

theorem apart_serviceModules
    (hservices : ((d.services.filter isRouted).map fun s => Text.kebab s.name).Nodup) :
    (d.services.flatMap (serviceModules o e d)).Pairwise fun m m' => ¬ m.Clashes o m' := by
  rw [List.Nodup, List.pairwise_map, List.pairwise_filter] at hservices
  rw [List.pairwise_flatMap]
  constructor
  · intro s _
    unfold serviceModules
    cases isRouted s <;> cases o.skipClient <;> cases o.mock <;>
      simp [Module.Clashes, Module.extension]
  · refine hservices.imp ?_
    intro s s' hkebab m hm m' hm' hclash
    obtain ⟨-, hstem, -⟩ := stem_of_mem_serviceModules hm
    obtain ⟨-, hstem', -⟩ := stem_of_mem_serviceModules hm'
    apply hkebab (mem_serviceModules.mp hm).1 (mem_serviceModules.mp hm').1
    rw [← hstem, ← hstem', hclash.2.1]

theorem apart_entryModules
    (hservices : ((d.services.filter isRouted).map fun s => Text.kebab s.name).Nodup)
    (hstems : ∀ s ∈ d.services, isRouted s = true → Text.kebab s.name ∉ ["types", "index"]) :
    (entryModules o e d).Pairwise fun m m' => ¬ m.Clashes o m' := by
  have hservice : ∀ m ∈ d.services.flatMap (serviceModules o e d),
      m.stem ≠ "types" ∧ m.stem ≠ "index" ∧ m.extension ≠ "json" := by
    intro m hm
    obtain ⟨s, hs, hm⟩ := List.mem_flatMap.mp hm
    obtain ⟨-, hstem, hextension⟩ := stem_of_mem_serviceModules hm
    have hnone := hstems s hs (mem_serviceModules.mp hm).1
    simp only [List.mem_cons, List.not_mem_nil, or_false, not_or, ← hstem] at hnone
    exact ⟨hnone.1, hnone.2, hextension⟩
  have hapart := apart_serviceModules (o := o) (e := e) hservices
  unfold entryModules
  rw [List.pairwise_append, List.pairwise_append]
  refine ⟨⟨?_, hapart, ?_⟩, List.pairwise_singleton _ _, ?_⟩
  · cases o.schema <;> simp [Module.Clashes, Module.stem]
  · intro m hm m' hm' hclash
    obtain ⟨hstem, -, hextension⟩ := hservice m' hm'
    rcases List.mem_cons.mp hm with rfl | hm
    · exact hstem hclash.2.1.symm
    · split at hm
      · obtain rfl := List.mem_singleton.mp hm
        exact hextension hclash.2.2.symm
      · cases hm
  · intro m hm m' hm' hclash
    obtain rfl := List.mem_singleton.mp hm'
    rcases List.mem_append.mp hm with hm | hm
    · rcases List.mem_cons.mp hm with rfl | hm
      · exact absurd hclash.2.1 (by simp [Module.stem])
      · split at hm
        · obtain rfl := List.mem_singleton.mp hm
          exact absurd hclash.2.1 (by simp [Module.stem])
        · cases hm
    · exact (hservice m hm).2.1 hclash.2.1

/-- Modules of entries in different directories do not meet. -/
theorem apart_of_entries {e' : Entry} {d' : Document}
    (hstems : ∀ s ∈ d.services, isRouted s = true → Text.kebab s.name ∉ ["types", "index"])
    (hstems' : ∀ s ∈ d'.services, isRouted s = true → Text.kebab s.name ∉ ["types", "index"])
    (hentries : Path.clean e.name ≠ Path.clean e'.name)
    (htypes : Path.clean (Path.join [o.typesDirectory, e.name]) ≠
      Path.clean (Path.join [o.typesDirectory, e'.name]))
    (hm : m ∈ entryModules o e d) (hm' : m' ∈ entryModules o e' d') : ¬ m.Clashes o m' := by
  rintro ⟨hdirectory, hstem, -⟩
  rcases eq_types_of_stem hstems hm with rfl | ⟨hother, hname⟩
  · rcases eq_types_of_stem hstems' hm' with rfl | ⟨hother', -⟩
    · exact htypes hdirectory
    · exact hother' hstem.symm
  · rcases eq_types_of_stem hstems' hm' with rfl | ⟨-, hname'⟩
    · exact hother hstem
    · rw [hname, hname'] at hdirectory
      exact hentries hdirectory

theorem apart_of_root (hroot : Path.clean e.name ≠ ".")
    (hstems : ∀ s ∈ d.services, isRouted s = true → Text.kebab s.name ∉ ["types", "index"])
    (hm : m ∈ entryModules o e d) : ¬ m.Clashes o .root := by
  rintro ⟨hdirectory, hstem, -⟩
  rcases mem_entryModules.mp hm with rfl | ⟨-, rfl⟩ | ⟨s, hs, hm⟩ | rfl
  · simp [Module.stem] at hstem
  · simp [Module.stem] at hstem
  · have hnone := hstems s hs (mem_serviceModules.mp hm).1
    rw [← (stem_of_mem_serviceModules hm).2.1, hstem] at hnone
    simp [Module.stem] at hnone
  · have hempty : Path.clean "" = "." := by decide
    exact hroot (hdirectory.trans hempty)

theorem Rendered.Separate.apart {origin : Origin} {R : Rendered o origin} (h : R.Separate) :
    R.modules.Pairwise fun m m' => ¬ m.Clashes o m' := by
  unfold Rendered.modules Job.modules
  rw [List.pairwise_append, List.pairwise_flatMap]
  refine ⟨⟨?_, ?_⟩, ?_, ?_⟩
  · intro e he
    unfold Job.modulesAt
    cases hd : R.job.docs.find? e.path with
    | none => exact List.Pairwise.nil
    | some d =>
        obtain ⟨hservices, hstems⟩ := h.services e he d hd
        exact apart_entryModules hservices hstems
  · have hboth := (List.pairwise_map.mp h.entries).and (List.pairwise_map.mp h.types)
    refine hboth.imp_of_mem ?_
    intro e e' he he' hapart m hm m' hm'
    obtain ⟨d, hd, hm⟩ := Job.mem_modulesAt.mp hm
    obtain ⟨d', hd', hm'⟩ := Job.mem_modulesAt.mp hm'
    exact apart_of_entries (h.services e he d hd).2 (h.services e' he' d' hd').2 hapart.1 hapart.2
      hm hm'
  · split
    · exact List.pairwise_singleton _ _
    · exact List.Pairwise.nil
  · intro m hm m' hm'
    split at hm'
    · rename_i haggregate
      obtain rfl := List.mem_singleton.mp hm'
      obtain ⟨e, he, hm⟩ := List.mem_flatMap.mp hm
      obtain ⟨d, hd, hm⟩ := Job.mem_modulesAt.mp hm
      exact apart_of_root (h.root haggregate e he) (h.services e he d hd).2 hm
    · cases hm'

end Separate

/-- When a run overwrites what it has rendered. For every run without plugins that
succeeds, wherever it reads and writes: it has written what it rendered, of several
files with one path the last. Two modules have one path exactly if they agree on the
directory up to cleaning, on the stem and on the extension. So everything that was
rendered is written exactly if no two modules do, and in particular if the names of
entries and services keep them apart. -/
theorem generate_overwrites_iff {σ : Type} (o : Options) (origin : Origin) (sink : Sink σ) (s : σ)
    (written : Written) (hplugins : o.plugins = [])
    (h : (generate o origin (some sink) s).result = .ok written) :
    ∃ R : Rendered o origin,
      written = .ofFiles R.output ∧
      (generate o origin (some sink) s).sink = sink.after R.output s ∧
      (∀ m ∈ R.modules, ∀ m' ∈ R.modules, m.path o = m'.path o ↔ m.Clashes o m') ∧
      (R.output.Perm R.files ↔ R.modules.Pairwise fun m m' => ¬ m.Clashes o m') ∧
      (R.Separate → R.output.Perm R.files) := by
  obtain ⟨R, hwritten, hsink⟩ := renders_of_generate hplugins h
  have hall : R.output.Perm R.files ↔ R.modules.Pairwise fun m m' => ¬ m.Clashes o m' :=
    R.output_perm_iff.trans R.nodup_files_iff
  refine ⟨R, hwritten, hsink, ?_, hall, fun hseparate => hall.mpr hseparate.apart⟩
  intro m hm m' hm'
  exact Module.path_eq_path_iff (R.worded_of_mem hm) (R.worded_of_mem hm')

def twoServices : List (String × String) :=
  [("a.thrift", "struct R \x7b\x7d\nservice UserData \x7b R get() (api.get = '/u') \x7d\n" ++
    "service Orders \x7b R get() (api.get = '/o') \x7d")]

theorem services_twoServices :
    (loadedFrom twoServices ["/a.thrift"]).map (fun d => d.services.map (·.name)) =
      [["UserData", "Orders"]] := by
  decide +kernel

theorem generate_overwrites_iff_twoServices :
    let o : Options := { entries := [("a", "a.thrift")], aggregate := true }
    ∃ written, (generate o (.ofFiles twoServices) (some .memories) [{}]).result = .ok written ∧
      ∃ R : Rendered o (.ofFiles twoServices), R.Separate ∧ R.output.Perm R.files ∧
        written = .ofFiles R.output := by
  intro o
  obtain ⟨written, hwritten⟩ : ∃ written,
      (generate o (.ofFiles twoServices) (some .memories) [{}]).result = .ok written :=
    generates_memories rfl rfl rfl (by decide +kernel)
  obtain ⟨R, hfiles, -, -, -, hall⟩ :=
    generate_overwrites_iff o (.ofFiles twoServices) .memories [{}] written rfl hwritten
  have hentries : R.entries = [⟨"a", "/a.thrift"⟩] := by
    have hresolved : resolveEntries (Origin.ofFiles twoServices).paths o.entries =
        .ok [⟨"a", "/a.thrift"⟩] := Source.ok_of_toOption (by decide +kernel)
    exact Except.ok.inj (R.resolved.symm.trans hresolved)
  have hservices : ∀ path d, R.job.docs.find? path = some d →
      d.services.map (·.name) = ["UserData", "Orders"] := by
    intro path d hd
    obtain ⟨d', hd', rfl, -⟩ := R.mem_docs hd
    have hmem := List.mem_map_of_mem (f := fun d : Document => d.services.map (·.name)) hd'
    rw [R.loaded_eq rfl, hentries] at hmem
    exact List.mem_singleton.mp (services_twoServices ▸ hmem)
  have hseparate : R.Separate := by
    refine ⟨?_, ?_, ?_, ?_⟩
    · rw [hentries]
      decide
    · rw [hentries]
      decide
    · rw [hentries]
      decide
    · intro e he d hd
      have hnames := hservices e.path d hd
      have hkebab : d.services.map (fun s => Text.kebab s.name) = ["user-data", "orders"] := by
        have hmap : d.services.map (fun s => Text.kebab s.name) =
            (d.services.map (·.name)).map Text.kebab := by simp
        rw [hmap, hnames]
        decide +kernel
      constructor
      · have hsublist := (List.filter_sublist (p := isRouted) (l := d.services)).map
          fun s => Text.kebab s.name
        rw [hkebab] at hsublist
        exact hsublist.nodup (by decide)
      · intro s hs _
        have hmem := List.mem_map_of_mem (f := fun s : Service => Text.kebab s.name) hs
        rw [hkebab] at hmem
        have hnone : ∀ k ∈ ["user-data", "orders"], k ∉ ["types", "index"] := by decide
        exact hnone _ hmem
  exact ⟨written, hwritten, R, hseparate, hall hseparate, hfiles⟩

/-- A file whose service is called like a module. -/
def typesService : List (String × String) :=
  [("a.thrift", "struct R \x7b\x7d\nservice Types \x7b R get() (api.get = '/r') \x7d")]

/-- The client of a service is written in place of the types. -/
theorem types_overwritten :
    let o : Options := { entries := [("a", "a.thrift")] }
    ((prepare o).toOption.map fun (types, bus) =>
      let (result, r) := render o (.ofFiles typesService) types bus { registry := some { types } }
      (result.isOk, r.output.map fun (path, text) => (path, Text.startsWith text "import"))) =
      some (true, [("a/types.ts", true), ("a/index.ts", false)]) := by
  decide +kernel

end Generate
end ClientGen
