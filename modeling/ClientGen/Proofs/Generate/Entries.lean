import ClientGen.Files.Memory
import ClientGen.Generate.Entries
import ClientGen.Proofs.Collection.Table
import ClientGen.Proofs.Source.Failure
import Mathlib.Data.List.TakeWhile

/-! # Names of entries

Every entry of a configured name has that name in front of its first slash (`front_of_entriesOf`),
so entries of different configured names have different names. Those of one name are told apart by
the stems of their files alone: the names of all entries are distinct exactly if no pattern matches
two files with one stem.
-/

namespace ClientGen
namespace Generate

open Source (exists_mem_of_forall₂ forall₂_of_mapM ok_of_bind)

structure Matches (m : Files.Memory) (pattern path : String) : Prop where
  stored : path ∈ m.paths
  known : Files.Kind.ofPath path ≠ .none
  fits : Glob.isMatch pattern path = true

section Names

variable {m : Files.Memory} {paths names : List String} {name target : String} {es : List Entry}

/-- The part of a name in front of its first slash. -/
def front (name : String) : List Char := name.toList.takeWhile (· ≠ '/')

theorem front_of_not_mem (h : '/' ∉ name.toList) : front name = name.toList :=
  List.takeWhile_eq_self_iff.mpr fun c hc => by
    have hne : c ≠ '/' := fun heq => h (heq ▸ hc)
    simpa using hne

theorem front_append (h : '/' ∉ name.toList) (stem : String) :
    front (name ++ "/" ++ stem) = name.toList := by
  have hchars : (name ++ "/" ++ stem).toList = name.toList ++ '/' :: stem.toList := by simp
  rw [front, hchars, List.takeWhile_append_of_pos fun c hc => by
    have hne : c ≠ '/' := fun heq => h (heq ▸ hc)
    simpa using hne]
  simp

/-- The entries of a configured name, when there are some: one of that name, or one for each file
that the pattern matches. -/
theorem entriesOf_cases (h : entriesOf paths name target = .ok es) :
    (∃ path, es = [⟨name, path⟩] ∧
        (isPattern (Path.rooted target) = true → matching paths (Path.rooted target) = [path])) ∨
      isPattern (Path.rooted target) = true ∧
        es = (matching paths (Path.rooted target)).map
          fun p => ⟨name ++ "/" ++ fileStem p, p⟩ := by
  unfold entriesOf at h
  dsimp only at h
  by_cases hpattern : isPattern (Path.rooted target) = true
  · simp only [hpattern, Bool.not_true, Bool.false_eq_true, if_false] at h
    split at h
    · cases h
    · split at h
      · cases h
      · rename_i one hone
        exact .inl ⟨one, (Except.ok.inj h).symm, fun _ => hone⟩
      · exact .inr ⟨hpattern, (Except.ok.inj h).symm⟩
  · rw [if_pos (by simpa using hpattern)] at h
    exact .inl ⟨_, (Except.ok.inj h).symm, fun hyes => absurd hyes hpattern⟩

theorem front_of_entriesOf (hname : '/' ∉ name.toList) (h : entriesOf paths name target = .ok es) :
    ∀ e ∈ es, front e.name = name.toList := by
  intro e he
  rcases entriesOf_cases h with ⟨path, rfl, -⟩ | ⟨-, rfl⟩
  · obtain rfl := List.mem_singleton.mp he
    exact front_of_not_mem hname
  · obtain ⟨p, -, rfl⟩ := List.mem_map.mp he
    exact front_append hname _

/-- Entries of one configured name are told apart by the stems of their files. -/
theorem nodup_names_entriesOf_iff (h : entriesOf paths name target = .ok es) :
    (es.map (·.name)).Nodup ↔ (isPattern (Path.rooted target) = true →
      ((matching paths (Path.rooted target)).map fileStem).Nodup) := by
  rcases entriesOf_cases h with ⟨path, rfl, hone⟩ | ⟨hpattern, rfl⟩
  · refine iff_of_true (List.nodup_singleton _) fun hpattern => ?_
    rw [hone hpattern]
    exact List.nodup_singleton _
  · have hinjective : Function.Injective (name ++ "/" ++ ·) := fun s t hst => by
      simpa using hst
    have hnames : ((matching paths (Path.rooted target)).map fun p =>
        (⟨name ++ "/" ++ fileStem p, p⟩ : Entry)).map (·.name) =
          ((matching paths (Path.rooted target)).map fileStem).map (name ++ "/" ++ ·) := by
      simp
    rw [hnames, List.nodup_map_iff hinjective]
    exact ⟨fun hstems _ => hstems, fun hstems => hstems hpattern⟩

/-- Entries of different configured names are told apart by these. -/
theorem nodup_names_flatten_iff {targets : Table String} {parts : List (List Entry)}
    (hkeys : targets.keys.Nodup) (hnames : ∀ name ∈ targets.keys, '/' ∉ name.toList)
    (h : List.Forall₂ (fun t es => entriesOf paths t.1 t.2 = .ok es) targets parts) :
    (parts.flatten.map (·.name)).Nodup ↔ ∀ es ∈ parts, (es.map (·.name)).Nodup := by
  induction h with
  | nil => simp
  | @cons t es targets parts hes hrest ih =>
      obtain ⟨hnew, hkeys⟩ := List.nodup_cons.mp hkeys
      obtain ⟨hname, hnames⟩ := List.forall_mem_cons.mp hnames
      have hapart : List.Disjoint (es.map (·.name)) (parts.flatten.map (·.name)) := by
        intro n hn hlater
        obtain ⟨e, he, rfl⟩ := List.mem_map.mp hn
        obtain ⟨e', he', hsame⟩ := List.mem_map.mp hlater
        obtain ⟨es', hes', he'⟩ := List.mem_flatten.mp he'
        obtain ⟨t', ht', hpart⟩ := exists_mem_of_forall₂ hrest.flip hes'
        have hkey : t'.1 ∈ Table.keys targets := List.mem_map_of_mem ht'
        have hfront := front_of_entriesOf (hnames _ hkey) hpart e' he'
        rw [hsame, front_of_entriesOf hname hes e he] at hfront
        exact hnew (String.toList_inj.mp hfront ▸ hkey)
      rw [List.flatten_cons, List.map_append, List.nodup_append', ih hkeys hnames,
        List.forall_mem_cons]
      exact ⟨fun ⟨hes, hparts, _⟩ => ⟨hes, hparts⟩, fun ⟨hes, hparts⟩ => ⟨hes, hparts, hapart⟩⟩

end Names

section Memory

variable {m : Files.Memory} {targets : Table String} {es : List Entry} {pattern path : String}

theorem mem_matching : path ∈ matching m.paths pattern ↔ Matches m pattern path := by
  rw [matching, (sortTexts_perm _).mem_iff, List.mem_filter, Bool.and_eq_true, bne_iff_ne]
  exact ⟨fun ⟨hstored, hknown, hfits⟩ => ⟨hstored, hknown, hfits⟩,
    fun h => ⟨h.stored, h.known, h.fits⟩⟩

theorem nodup_matching (hm : m.files.keys.Nodup) : (matching m.paths pattern).Nodup :=
  (sortTexts_perm _).nodup_iff.mpr (((sortTexts_perm _).nodup_iff.mpr hm).filter _)

/-- The entries of a project go by different names exactly if no pattern matches two interface
files with one stem. -/
theorem resolveEntries_names_nodup_iff (hm : m.files.keys.Nodup) (hkeys : targets.keys.Nodup)
    (hnames : ∀ name ∈ targets.keys, '/' ∉ name.toList)
    (h : resolveEntries m.paths targets = .ok es) :
    (es.map (·.name)).Nodup ↔
      ∀ t ∈ targets, isPattern (Path.rooted t.2) = true →
        ∀ p q, Matches m (Path.rooted t.2) p → Matches m (Path.rooted t.2) q →
          fileStem p = fileStem q → p = q := by
  obtain ⟨parts, hparts, h⟩ := ok_of_bind h
  obtain rfl : parts.flatten = es := Except.ok.inj h
  have hall := forall₂_of_mapM hparts
  have hperm : (Table.keys targets.sorted).Perm targets.keys := (Table.sorted_perm targets).map _
  rw [nodup_names_flatten_iff (hperm.nodup_iff.mpr hkeys)
    (fun name hname => hnames name (hperm.mem_iff.mp hname)) hall]
  -- both sides speak of one configured name at a time
  have heach : (∀ es ∈ parts, (es.map (·.name)).Nodup) ↔
      ∀ t ∈ targets, isPattern (Path.rooted t.2) = true →
        ((matching m.paths (Path.rooted t.2)).map fileStem).Nodup := by
    constructor
    · intro hnodup t ht
      obtain ⟨es, hes, hpart⟩ :=
        exists_mem_of_forall₂ hall ((Table.sorted_perm targets).mem_iff.mpr ht)
      exact (nodup_names_entriesOf_iff hpart).mp (hnodup es hes)
    · intro hstems es hes
      obtain ⟨t, ht, hpart⟩ := exists_mem_of_forall₂ hall.flip hes
      exact (nodup_names_entriesOf_iff hpart).mpr
        (hstems t ((Table.sorted_perm targets).mem_iff.mp ht))
  rw [heach]
  refine forall₂_congr fun t _ => imp_congr_right fun _ => ?_
  rw [List.nodup_map_iff_inj_on (nodup_matching hm)]
  simp only [mem_matching]
  exact ⟨fun hinj p q hp hq => hinj p hp q hq, fun hinj p hp q hq => hinj p q hp hq⟩

/-- What a pattern with several matches gives, where the paths are in order. -/
theorem entriesOf_several {paths found : List String} {name target : String}
    (hpattern : isPattern (Path.rooted target) = true)
    (hvalid : Glob.valid (Path.rooted target) = true) (hpaths : paths.Pairwise (· ≤ ·))
    (hfound : (paths.filter fun p => Files.Kind.ofPath p != .none &&
      Glob.isMatch (Path.rooted target) p) = found) (hseveral : 1 < found.length) :
    entriesOf paths name target = .ok (found.map fun p => ⟨name ++ "/" ++ fileStem p, p⟩) := by
  have hmatching : matching paths (Path.rooted target) = found := by
    rw [matching, sortTexts_of_pairwise (hpaths.filter _), hfound]
  match found, hseveral with
  | _ :: _ :: _, _ => simp [entriesOf, hpattern, hvalid, hmatching]

theorem resolveEntries_single (paths : List String) (name target : String) :
    resolveEntries paths [(name, target)] = entriesOf paths name target := by
  have hsorted : Table.sorted [(name, target)] = [(name, target)] := List.mergeSort_singleton _
  rw [resolveEntries, hsorted]
  cases h : entriesOf paths name target <;> simp [h, bind, Except.bind, pure, Except.pure]

theorem valid_rooted : ∀ p ∈ ["*/*", "**/x.thrift"], Glob.valid (Path.rooted p) = true := by
  decide +kernel

/-- Files in different directories with different stems. -/
def ordersAndUsers : Files.Memory := .ofList [("a/orders.thrift", ""), ("b/users.proto", "")]

theorem resolveEntries_names_nodup_iff_ordersAndUsers :
    resolveEntries ordersAndUsers.paths [("all", "*/*")] =
        .ok [⟨"all/orders", "/a/orders.thrift"⟩, ⟨"all/users", "/b/users.proto"⟩] ∧
      ∀ p q, Matches ordersAndUsers "/*/*" p → Matches ordersAndUsers "/*/*" q →
        fileStem p = fileStem q → p = q := by
  have hpaths : ordersAndUsers.paths = ["/a/orders.thrift", "/b/users.proto"] :=
    sortTexts_of_pairwise (by decide)
  have hnames : (["/a/orders.thrift", "/b/users.proto"].map fun p =>
      (⟨"all" ++ "/" ++ fileStem p, p⟩ : Entry)) =
        [⟨"all/orders", "/a/orders.thrift"⟩, ⟨"all/users", "/b/users.proto"⟩] := by
    decide
  have hok : resolveEntries ordersAndUsers.paths [("all", "*/*")] =
      .ok [⟨"all/orders", "/a/orders.thrift"⟩, ⟨"all/users", "/b/users.proto"⟩] := by
    rw [resolveEntries_single, hpaths, ← hnames]
    exact entriesOf_several (by decide) (valid_rooted _ (by simp)) (by decide) (by decide)
      (by decide)
  exact ⟨hok, (resolveEntries_names_nodup_iff (Table.nodup_keys_ofList _) (by decide) (by decide)
    hok).mp (by decide) ("all", "*/*") (by simp) (by decide)⟩

/-- Files of two directories with one stem make two entries of one name. -/
theorem entries_named_alike :
    ∃ es, resolveEntries (Files.Memory.ofList [("a/x.thrift", ""), ("b/x.thrift", "")]).paths
        [("all", "**/x.thrift")] = .ok es ∧
      es = [⟨"all/x", "/a/x.thrift"⟩, ⟨"all/x", "/b/x.thrift"⟩] ∧
        ¬ (es.map (·.name)).Nodup := by
  have hpaths : (Files.Memory.ofList [("a/x.thrift", ""), ("b/x.thrift", "")]).paths =
      ["/a/x.thrift", "/b/x.thrift"] := sortTexts_of_pairwise (by decide)
  have hnames : (["/a/x.thrift", "/b/x.thrift"].map fun p =>
      (⟨"all" ++ "/" ++ fileStem p, p⟩ : Entry)) =
        [⟨"all/x", "/a/x.thrift"⟩, ⟨"all/x", "/b/x.thrift"⟩] := by
    decide
  refine ⟨_, ?_, hnames, by rw [hnames]; decide⟩
  rw [resolveEntries_single, hpaths]
  exact entriesOf_several (by decide) (valid_rooted _ (by simp)) (by decide) (by decide)
    (by decide)

end Memory
end Generate
end ClientGen
