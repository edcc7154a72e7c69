import ClientGen.Proofs.Load.Closure
import Mathlib.Data.List.Dedup

/-! # The cache and the entry marks

The size of the cache decides neither which documents are loaded nor why loading
fails (`loadAll_cacheSize`). It does decide which documents are marked as entries:
an entry that was included before, and has been dropped from the cache since, is
parsed anew, and the mark goes to the copy (`mark_lost_by_dropping`). With room for
all targets that are named no mark is lost.
-/

namespace ClientGen
namespace Load

open Source (Reporter Failure Code Diagnostic)
open Files (Memory)

/-! ## Two walks with different caches -/

def Walk.resize (w : Walk) (size : Nat) : Walk := { w with cache := { w.cache with size } }

/-- Both caches have room for everything that the first walk has parsed. -/
def Fits (w w' : Walk) : Prop :=
  w.parsed.length ≤ w.cache.size ∧ w.parsed.length ≤ w'.cache.size

/-- Sound walks with the same result apart from marks. As long as both caches have
room they are the same in everything but the size of the cache. -/
structure Agree (l : Loader) (codes : List Code) (w w' : Walk) : Prop where
  sound : w.Sound l codes
  sound' : w'.Sound l codes
  docs : w.docs.map Document.unmarked = w'.docs.map Document.unmarked
  exact : Fits w w' → w' = w.resize w'.cache.size

structure Twins (w w' : Walk) (n n' : Nat) : Prop where
  same : ∃ d, (w.parsed[n]?).map Document.unmarked = some d ∧
    (w'.parsed[n']?).map Document.unmarked = some d
  exact : Fits w w' → n' = n

/-- Two results that are the same failure, or values in a relation. -/
inductive Alike {α : Type} (R : α → α → Walk → Walk → Prop) :
    Except Failure α × Walk → Except Failure α × Walk → Prop where
  | error (e : Failure) (w w' : Walk) : Alike R (.error e, w) (.error e, w')
  | ok {a b : α} {w w' : Walk} (h : R a b w w') : Alike R (.ok a, w) (.ok b, w')

section Resizing

variable {l : Loader} {codes : List Code} {w : Walk} {uri : String} {size : Nat}

theorem Cache.touch_resize (c : Cache) (uri : String) (size : Nat) :
    ({ c with size } : Cache).touch uri = { c.touch uri with size } := by
  unfold touch
  dsimp only
  cases c.entries.find? uri <;> rfl

theorem Cache.add_resize {c : Cache} {n : Nat} (h : c.entries.length < c.size)
    (h' : c.entries.length < size) :
    ({ c with size } : Cache).add uri n = { c.add uri n with size } := by
  have hlength : ((uri, n) :: c.entries.filter (·.1 ≠ uri)).length ≤ c.entries.length + 1 :=
    Nat.succ_le_succ (List.length_filter_le _ _)
  unfold add
  dsimp only
  rw [List.take_of_length_le (by omega), List.take_of_length_le (by omega)]

/-- Where there is room, loading does not depend on the size of the cache. -/
theorem load_resize {x : Except Failure Nat} {v : Walk} (hw : w.Sound l codes)
    (hload : l.load uri w = (x, v)) (h : v.parsed.length ≤ w.cache.size)
    (h' : v.parsed.length ≤ size) : l.load uri (w.resize size) = (x, v.resize size) := by
  obtain ⟨rfl, rfl⟩ : (l.load uri w).1 = x ∧ (l.load uri w).2 = v := by simp [hload]
  clear hload
  have hroom := hw.room
  have hpeek : (w.resize size).cache.peek? uri = w.cache.peek? uri := rfl
  have hreporter : (w.resize size).reporter = w.reporter := rfl
  unfold Loader.load at h h' ⊢
  rw [hpeek, hreporter]
  cases hhit : w.cache.peek? uri with
  | some n =>
      dsimp only
      exact congrArg (fun c => ((.ok n : Except Failure Nat), { w with cache := c }))
        (Cache.touch_resize w.cache uri size)
  | none =>
      rw [hhit] at h h'
      cases hopen : l.system.openAt uri with
      | error e => rfl
      | ok files =>
          cases files with
          | nil => rfl
          | cons f fs =>
              rw [hopen] at h h'
              dsimp only at h h' ⊢
              cases hcompile : compileFile f l.revise w.reporter with
              | mk result r =>
                  rw [hcompile] at h h'
                  cases result with
                  | error e => rfl
                  | ok result =>
                      cases result with
                      | none => rfl
                      | some d =>
                          simp only [List.length_append, List.length_singleton] at h h'
                          have hadd : (w.resize size).cache.add uri w.parsed.length =
                              { w.cache.add uri w.parsed.length with size } :=
                            Cache.add_resize (by omega) (by omega)
                          exact congrArg (fun c => ((.ok w.parsed.length : Except Failure Nat),
                            { w with reporter := r, parsed := w.parsed ++ [d], cache := c })) hadd

end Resizing

section Agreeing

variable {l : Loader} {codes : List Code} {w w' : Walk}

theorem Loads.error {uri : String} {e : Failure} (h : Loads l codes uri w (.error e, w')) :
    l.documentAt codes uri = .error e := by
  cases h with
  | failed hfound => exact hfound

theorem Loads.grows {uri : String} {n : Nat} (h : Loads l codes uri w (.ok n, w')) :
    w.parsed.length ≤ w'.parsed.length ∧ w'.cache.size = w.cache.size := by
  cases h with
  | recalled hhit hknown hfound =>
      refine ⟨Nat.le_refl _, ?_⟩
      unfold Cache.touch
      dsimp only
      split <;> rfl
  | parsed habsent hfound hsame hsilent => exact ⟨by simp [Walk.learn], rfl⟩

theorem Fits.of_markEntry {n n' : Nat}
    (h : Fits (Loader.markEntry n w) (Loader.markEntry n' w')) : Fits w w' := by
  simpa [Fits, Walk.length_markEntry, Loader.markEntry] using h

theorem Twins.mark {n n' : Nat} (h : Twins w w' n n') :
    Twins (Loader.markEntry n w) (Loader.markEntry n' w') n n' := by
  refine ⟨?_, fun hfits => h.exact hfits.of_markEntry⟩
  rw [Walk.unmarked_markEntry, Walk.unmarked_markEntry]
  exact h.same

namespace Agree

theorem seen (h : Agree l codes w w') : w.seen = w'.seen := by
  have hpaths := congrArg (List.map (·.path)) h.docs
  rw [map_path_unmarked, map_path_unmarked, h.sound.paths, h.sound'.paths] at hpaths
  exact List.reverse_injective hpaths

/-- While everything fits, both walks load from the same cache. -/
theorem load_exact {uri : String} {n n' : Nat} {v v' : Walk} (h : Agree l codes w w')
    (hload : l.load uri w = (.ok n, v)) (hload' : l.load uri w' = (.ok n', v'))
    (hfits : Fits v v') : v' = v.resize v'.cache.size ∧ n' = n := by
  obtain ⟨hroom, hroom'⟩ := hfits
  obtain ⟨hgrows, hsize⟩ := (h.sound.loads hload).grows
  have hsize' := (h.sound'.loads hload').grows.2
  have hwalk := h.exact ⟨by omega, by omega⟩
  have hresized : l.load uri (w.resize w'.cache.size) = (.ok n, v.resize w'.cache.size) :=
    load_resize h.sound hload (by omega) (by omega)
  rw [← hwalk, hload', ← hsize'] at hresized
  obtain ⟨hnumber, hstate⟩ := Prod.mk.inj hresized
  exact ⟨hstate, Except.ok.inj hnumber⟩

theorem load (h : Agree l codes w w') (uri : String) :
    Alike (fun n n' v v' => Agree l codes v v' ∧ Twins v v' n n') (l.load uri w)
      (l.load uri w') := by
  obtain ⟨x, v, hload⟩ : ∃ x v, l.load uri w = (x, v) := ⟨_, _, rfl⟩
  obtain ⟨y, v', hload'⟩ : ∃ y v', l.load uri w' = (y, v') := ⟨_, _, rfl⟩
  have hloads := h.sound.loads hload
  have hloads' := h.sound'.loads hload'
  rw [hload, hload']
  -- The document of the target decides between failure and success on both sides.
  cases x with
  | error e =>
      cases y with
      | error e' =>
          obtain rfl : e = e' := Except.error.inj (hloads.error.symm.trans hloads'.error)
          exact .error e v v'
      | ok n' =>
          obtain ⟨d, -, hfound⟩ := hloads'.document
          cases hloads.error.symm.trans hfound
  | ok n =>
      obtain ⟨d, hknown, hfound⟩ := hloads.document
      cases y with
      | error e' => cases hloads'.error.symm.trans hfound
      | ok n' =>
          obtain ⟨d', hknown', hfound'⟩ := hloads'.document
          have hsame : d'.unmarked = d.unmarked := Except.ok.inj (hfound'.symm.trans hfound)
          have hdocs : v.docs.map Document.unmarked = v'.docs.map Document.unmarked := by
            rw [(hloads.frame h.sound).1, (hloads'.frame h.sound').1, h.docs]
          refine .ok ⟨⟨hloads.sound h.sound, hloads'.sound h.sound', hdocs, fun hfits => ?_⟩,
            ⟨d.unmarked, by simp [hknown], by simp [hknown', hsame]⟩, fun hfits => ?_⟩
          · exact (h.load_exact hload hload' hfits).1
          · exact (h.load_exact hload hload' hfits).2

theorem miss (h : Agree l codes w w') (source path : String) :
    Agree l codes (w.miss source path) (w'.miss source path) :=
  ⟨h.sound.miss source path, h.sound'.miss source path, h.docs,
    fun hfits => congrArg (·.miss source path) (h.exact hfits)⟩

theorem enter {n n' : Nat} {d d' : Document} (h : Agree l codes w w')
    (hknown : w.parsed[n]? = some d) (hknown' : w'.parsed[n']? = some d')
    (hsame : d.unmarked = d'.unmarked) (hnumber : Fits w w' → n' = n) (hfresh : d.path ∉ w.seen) :
    Agree l codes (w.enter n d.path) (w'.enter n' d'.path) := by
  have hpath : d.path = d'.path := Document.path_eq_of_unmarked hsame
  have hfresh' : d'.path ∉ w'.seen := by rwa [← hpath, ← h.seen]
  refine ⟨h.sound.enter hknown hfresh, h.sound'.enter hknown' hfresh', ?_, ?_⟩
  · rw [Walk.docs_enter hknown, Walk.docs_enter hknown', List.map_append, List.map_append, h.docs]
    simp [hsame]
  · intro hfits
    rw [hnumber hfits, ← hpath]
    exact congrArg (·.enter n d.path) (h.exact hfits)

theorem mark {n n' : Nat} (h : Agree l codes w w') (hnumber : Fits w w' → n' = n) :
    Agree l codes (Loader.markEntry n w) (Loader.markEntry n' w') := by
  refine ⟨h.sound.mark n, h.sound'.mark n', ?_, ?_⟩
  · rw [Walk.docs_markEntry, Walk.docs_markEntry, h.docs]
  · intro hfits
    rw [hnumber hfits.of_markEntry]
    exact congrArg (Loader.markEntry n ·) (h.exact hfits.of_markEntry)

theorem followIncludes {visit : Nat → Step Unit} {source : String} {includes : List String}
    (hvisit : ∀ n n' w w', Agree l codes w w' → Twins w w' n n' →
      Alike (fun _ _ => Agree l codes) (visit n w) (visit n' w'))
    (h : Agree l codes w w') :
    Alike (fun _ _ => Agree l codes) (l.followIncludes visit source includes w)
      (l.followIncludes visit source includes w') := by
  induction includes generalizing w w' with
  | nil => exact .ok h
  | cons path rest ih =>
      rw [Loader.followIncludes, Loader.followIncludes, h.sound.resolve?, h.sound'.resolve?]
      cases l.target? source path with
      | none =>
          have hfatal : w'.reporter.isFatal = w.reporter.isFatal := by
            funext d
            simp only [Reporter.isFatal, h.sound.harmless, h.sound'.harmless]
          dsimp only
          rw [hfatal]
          split
          · exact .error _ _ _
          · exact ih (h.miss source path)
      | some uri =>
          have hloaded := h.load uri
          dsimp only
          generalize l.load uri w = x at hloaded ⊢
          generalize l.load uri w' = y at hloaded ⊢
          cases hloaded with
          | error e v v' => exact .error e v v'
          | @ok n n' v v' hboth =>
              have hvisited := hvisit n n' v v' hboth.1 hboth.2
              dsimp only
              generalize visit n v = x at hvisited ⊢
              generalize visit n' v' = y at hvisited ⊢
              cases hvisited with
              | error e u u' => exact .error e u u'
              | ok hrest => exact ih hrest

theorem visit {fuel n n' : Nat} (h : Agree l codes w w') (htwins : Twins w w' n n') :
    Alike (fun _ _ => Agree l codes) (l.visit fuel n w) (l.visit fuel n' w') := by
  induction fuel generalizing n n' w w' with
  | zero => exact .ok h
  | succ fuel ih =>
      obtain ⟨⟨e, hd, hd'⟩, hnumber⟩ := htwins
      obtain ⟨d, hknown, rfl⟩ := Option.map_eq_some_iff.mp hd
      obtain ⟨d', hknown', hunmarked⟩ := Option.map_eq_some_iff.mp hd'
      have hsame := hunmarked.symm
      have hpath : d.path = d'.path := Document.path_eq_of_unmarked hsame
      have hincludes : d.includes = d'.includes := Document.includes_eq_of_unmarked hsame
      have hcontains : w'.seen.contains d.path = w.seen.contains d.path := by rw [h.seen]
      rw [Loader.visit, Loader.visit, hknown, hknown']
      dsimp only
      rw [← hpath, ← hincludes, hcontains]
      split
      · exact .ok h
      · rename_i hseen
        have hentered := h.enter hknown hknown' hsame hnumber (by simpa using hseen)
        rw [← hpath] at hentered
        exact followIncludes (fun _ _ _ _ => ih) hentered

/-- Walks that agree go on to agree, or fail alike. -/
theorem visitEntries (h : Agree l codes w w') (entries : List String) :
    Alike (fun _ _ => Agree l codes) (l.visitEntries entries w) (l.visitEntries entries w') := by
  induction entries generalizing w w' with
  | nil => exact .ok h
  | cons entry rest ih =>
      rw [Loader.visitEntries, Loader.visitEntries]
      have hloaded := h.load (Target.normalize entry)
      generalize l.load (Target.normalize entry) w = x at hloaded ⊢
      generalize l.load (Target.normalize entry) w' = y at hloaded ⊢
      cases hloaded with
      | error e v v' => exact .error e v v'
      | @ok n n' v v' hboth =>
          obtain ⟨hagree, htwins⟩ := hboth
          have hvisited : Alike (fun _ _ => Agree l codes)
              (l.visit (2 * l.system.bound + 2) n (Loader.markEntry n v))
              (l.visit (2 * l.system.bound + 2) n' (Loader.markEntry n' v')) :=
            (hagree.mark htwins.exact).visit htwins.mark
          dsimp only
          generalize l.visit (2 * l.system.bound + 2) n (Loader.markEntry n v) = x at hvisited ⊢
          generalize l.visit (2 * l.system.bound + 2) n' (Loader.markEntry n' v') = y at hvisited ⊢
          cases hvisited with
          | error e u u' => exact .error e u u'
          | ok hrest => exact ih hrest

end Agree

end Agreeing

/-! ## Caches with room for everything -/

/-- Nothing was dropped: each parsed document is in the cache, for the target that
has its number in `uris`. -/
structure Walk.Kept (w : Walk) (uris : List String) : Prop where
  length : uris.length = w.parsed.length
  cached : ∀ uri n, w.cache.peek? uri = some n ↔ uris[n]? = some uri

theorem length_dedup_le {xs ys : List String} (h : xs ⊆ ys) :
    xs.dedup.length ≤ ys.dedup.length := by
  refine (List.nodup_dedup xs).length_le_of_subset fun x hx => ?_
  exact List.mem_dedup.mpr (h (List.mem_dedup.mp hx))

theorem getElem?_concat_eq_some {xs : List String} {x y : String} {k : Nat} :
    (xs ++ [x])[k]? = some y ↔ xs[k]? = some y ∨ (k = xs.length ∧ y = x) := by
  rcases Nat.lt_trichotomy k xs.length with hk | hk | hk
  · rw [List.getElem?_append_left hk]
    have hne : k ≠ xs.length := Nat.ne_of_lt hk
    simp [hne]
  · subst hk
    simp [eq_comm]
  · have hlong : (xs ++ [x]).length ≤ k := by
      rw [List.length_append, List.length_singleton]
      omega
    have hne : k ≠ xs.length := Nat.ne_of_gt hk
    simp [List.getElem?_eq_none hlong, List.getElem?_eq_none (Nat.le_of_lt hk), hne]

theorem Cache.peek?_add_of_room {c : Cache} {uri : String} {n : Nat}
    (h : c.entries.length < c.size) (key : String) :
    (c.add uri n).peek? key = if key = uri then some n else c.peek? key := by
  have hlength : ((uri, n) :: c.entries.filter (·.1 ≠ uri)).length ≤ c.size :=
    Nat.le_trans (Nat.succ_le_succ (List.length_filter_le _ _)) h
  unfold add peek?
  rw [List.take_of_length_le hlength, Table.find?_cons]
  by_cases hkey : key = uri
  · rw [if_pos hkey, if_pos hkey]
  · rw [if_neg hkey, if_neg hkey, Table.find?_filter_ne c.entries hkey]

section Keeping

variable {l : Loader} {codes : List Code} {entries uris : List String} {w w' : Walk}

theorem Walk.Kept.nodup (h : w.Kept uris) : uris.Nodup := by
  refine List.nodup_iff_getElem?_ne_getElem?.mpr fun i j hij hj hsame => ?_
  have hlast := List.getElem?_eq_getElem hj
  have hj' := (h.cached _ j).mpr hlast
  have hi' := (h.cached _ i).mpr (hsame.trans hlast)
  have heq : i = j := Option.some.inj (hi'.symm.trans hj')
  omega

theorem Walk.Kept.not_mem {uri : String} (h : w.Kept uris) (habsent : w.cache.peek? uri = none) :
    uri ∉ uris := by
  intro hmem
  obtain ⟨n, hn⟩ := List.mem_iff_getElem?.mp hmem
  rw [(h.cached uri n).mpr hn] at habsent
  cases habsent

theorem Walk.Kept.learn {uri : String} {d : Document} {r : Reporter} (h : w.Kept uris)
    (habsent : w.cache.peek? uri = none) (hfree : w.cache.entries.length < w.cache.size) :
    (w.learn uri d r).Kept (uris ++ [uri]) := by
  refine ⟨by simp [Walk.learn, h.length], fun key n => ?_⟩
  have hpeek : (w.learn uri d r).cache.peek? key =
      if key = uri then some w.parsed.length else w.cache.peek? key :=
    Cache.peek?_add_of_room hfree key
  rw [hpeek, getElem?_concat_eq_some, ← h.cached key n, h.length]
  by_cases hkey : key = uri
  · subst hkey
    simp [habsent, eq_comm]
  · simp [hkey]

theorem Move.size (h : Move l codes entries w w') : w'.cache.size = w.cache.size := by
  cases h with
  | load hmeant hloads => exact hloads.grows.2
  | miss source path => rfl
  | enter hknown hfresh => rfl
  | mark hgiven hknown hfound => rfl

theorem Moves.size (h : Moves l codes entries w w') : w'.cache.size = w.cache.size := by
  induction h with
  | refl => rfl
  | tail _ hmove ih => exact hmove.size.trans ih

/-- A move drops nothing from a cache with room for all targets that are named. -/
theorem Move.kept (h : Move l codes entries w w') (hw : w.Sound l codes) (hkept : w.Kept uris)
    (hmeant : uris ⊆ l.named entries w.docs)
    (hroom : (l.named entries w'.docs).dedup.length ≤ w'.cache.size) :
    ∃ uris', w'.Kept uris' ∧ uris' ⊆ l.named entries w'.docs := by
  have hsubset := Moves.named_subset (.single h) hw
  cases h with
  | @load uri n w' hnamed hloads =>
      cases hloads with
      | recalled hhit hknown hfound =>
          refine ⟨uris, ⟨hkept.length, fun key k => ?_⟩, hmeant⟩
          rw [← hkept.cached key k, Cache.peek?_touch]
      | @parsed d r habsent hfound hsame hsilent =>
          have hnodup : (uris ++ [uri]).Nodup := by
            rw [List.nodup_append]
            refine ⟨hkept.nodup, by simp, ?_⟩
            rintro key hkey _ hlast rfl
            exact hkept.not_mem habsent (List.mem_singleton.mp hlast ▸ hkey)
          have hall : uris ++ [uri] ⊆ l.named entries (w.learn uri d r).docs := by
            rw [Walk.docs_learn _ _ _ hw.numbers]
            intro key hkey
            rcases List.mem_append.mp hkey with hkey | hkey
            · exact hmeant hkey
            · exact List.mem_singleton.mp hkey ▸ hnamed
          have hcount : (uris ++ [uri]).length ≤ w.cache.size :=
            Nat.le_trans (hnodup.length_le_of_subset fun key hkey =>
              List.mem_dedup.mpr (hall hkey)) hroom
          have hfree : w.cache.entries.length < w.cache.size := by
            have hcached := hw.room
            rw [List.length_append, hkept.length, List.length_singleton] at hcount
            omega
          exact ⟨uris ++ [uri], hkept.learn habsent hfree, hall⟩
  | miss source path => exact ⟨uris, ⟨hkept.length, hkept.cached⟩, hmeant⟩
  | enter hknown hfresh =>
      exact ⟨uris, ⟨hkept.length, hkept.cached⟩, fun _ hu => hsubset (hmeant hu)⟩
  | mark hgiven hknown hfound =>
      refine ⟨uris, ⟨?_, hkept.cached⟩, fun _ hu => hsubset (hmeant hu)⟩
      rw [Walk.length_markEntry, hkept.length]

theorem Moves.kept (h : Moves l codes entries w w') (hw : w.Sound l codes)
    (hkept : w.Kept []) (hroom : (l.named entries w'.docs).dedup.length ≤ w'.cache.size) :
    ∃ uris, w'.Kept uris ∧ uris ⊆ l.named entries w'.docs := by
  induction h with
  | refl => exact ⟨[], hkept, List.nil_subset _⟩
  | @tail w₁ w₂ hmoves hmove ih =>
      have hw₁ := Moves.sound hmoves hw
      have hcount := length_dedup_le (Moves.named_subset (.single hmove) hw₁)
      have hsize := hmove.size
      obtain ⟨uris, hkept₁, hmeant⟩ := ih (by omega)
      exact hmove.kept hw₁ hkept₁ hmeant hroom

/-- With room for all targets that are named, no more is parsed than fits. -/
theorem Moves.fits (h : Moves l codes entries w w') (hw : w.Sound l codes)
    (hkept : w.Kept []) (hroom : (l.named entries w'.docs).dedup.length ≤ w'.cache.size) :
    w'.parsed.length ≤ (l.named entries w'.docs).dedup.length := by
  obtain ⟨uris, hkept', hmeant⟩ := Moves.kept h hw hkept hroom
  rw [← hkept'.length]
  exact hkept'.nodup.length_le_of_subset fun key hkey => List.mem_dedup.mpr (hmeant hkey)

end Keeping

/-! ## Marks -/

section Marks

variable {l : Loader} {codes : List Code} {entries : List String} {w w' : Walk}

/-- Only documents of entries are marked. -/
def Walk.MarksEntries (l : Loader) (codes : List Code) (entries : List String) (w : Walk) : Prop :=
  ∀ d ∈ w.parsed, d.entry = true →
    ∃ entry ∈ entries, l.documentAt codes (Target.normalize entry) = .ok d.unmarked

theorem Move.marksEntries (h : Move l codes entries w w') (hw : w.MarksEntries l codes entries) :
    w'.MarksEntries l codes entries := by
  cases h with
  | load hmeant hloads =>
      cases hloads with
      | recalled hhit hknown hfound => exact hw
      | parsed habsent hfound hsame' hsilent =>
          intro e he hentry
          rcases List.mem_append.mp he with he | he
          · exact hw e he hentry
          · obtain rfl := List.mem_singleton.mp he
            rw [← Loader.unmarked_of_documentAt hfound] at hentry
            cases hentry
  | miss source path => exact hw
  | enter hknown hfresh => exact hw
  | @mark entry n d hgiven hknown hfound =>
      intro e he hentry
      obtain ⟨k, hk⟩ := List.mem_iff_getElem?.mp he
      rw [Walk.getElem?_markEntry] at hk
      obtain ⟨e', hk', rfl⟩ := Option.map_eq_some_iff.mp hk
      by_cases hsame : n = k
      · subst hsame
        obtain rfl : d = e' := Option.some.inj (hknown.symm.trans hk')
        rw [if_pos rfl]
        exact ⟨entry, hgiven, hfound⟩
      · rw [if_neg hsame] at hentry ⊢
        exact hw e' (List.mem_of_getElem? hk') hentry

theorem Moves.marksEntries (h : Moves l codes entries w w') (hw : w.MarksEntries l codes entries) :
    w'.MarksEntries l codes entries := by
  induction h with
  | refl => exact hw
  | tail _ hmove ih => exact hmove.marksEntries ih

/-- A move keeps the marks that there are. -/
theorem Move.keepsMark {n : Nat} {d : Document} (h : Move l codes entries w w')
    (hknown : w.parsed[n]? = some d) (hentry : d.entry = true) :
    ∃ d', w'.parsed[n]? = some d' ∧ d'.entry = true ∧ d'.unmarked = d.unmarked := by
  cases h with
  | load hmeant hloads =>
      cases hloads with
      | recalled _ _ _ => exact ⟨d, hknown, hentry, rfl⟩
      | parsed habsent hfound hsame hsilent =>
          have hn : n < w.parsed.length := (List.getElem?_eq_some_iff.mp hknown).choose
          exact ⟨d, (List.getElem?_append_left hn).trans hknown, hentry, rfl⟩
  | miss source path => exact ⟨d, hknown, hentry, rfl⟩
  | enter _ hfresh => exact ⟨d, hknown, hentry, rfl⟩
  | @mark entry k e hgiven hk hfound =>
      refine ⟨if k = n then { d with entry := true } else d, ?_, ?_, ?_⟩
      · rw [Walk.getElem?_markEntry, hknown]
        rfl
      · split <;> simp [hentry]
      · split <;> rfl

theorem Moves.keepsMark {n : Nat} {d : Document} (h : Moves l codes entries w w')
    (hknown : w.parsed[n]? = some d) (hentry : d.entry = true) :
    ∃ d', w'.parsed[n]? = some d' ∧ d'.entry = true ∧ d'.unmarked = d.unmarked := by
  induction h with
  | refl => exact ⟨d, hknown, hentry, rfl⟩
  | tail _ hmove ih =>
      obtain ⟨d₁, hknown₁, hentry₁, hsame₁⟩ := ih
      obtain ⟨d₂, hknown₂, hentry₂, hsame₂⟩ := hmove.keepsMark hknown₁ hentry₁
      exact ⟨d₂, hknown₂, hentry₂, hsame₂.trans hsame₁⟩

/-- A copy of the document of an entry is marked; it need not be in the result. -/
def Walk.HasMarked (l : Loader) (codes : List Code) (w : Walk) (entry : String) : Prop :=
  ∃ (n : Nat) (d : Document), w.parsed[n]? = some d ∧ d.entry = true ∧
    l.documentAt codes (Target.normalize entry) = .ok d.unmarked

theorem visitEntries_hasMarked {pending : List String} (hgiven : pending ⊆ entries)
    (hw : w.Sound l codes) (h : l.visitEntries pending w = (.ok (), w')) :
    ∀ entry ∈ pending, w'.HasMarked l codes entry := by
  induction pending generalizing w with
  | nil => simp
  | cons entry rest ih =>
      obtain ⟨n, w₁, w₂, hload, hvisit, hrest⟩ := visitEntries_cons_ok h
      have hloads := hw.loads hload
      have hmarked := (hloads.sound hw).mark n
      have hvisited : Moves l codes entries (Loader.markEntry n w₁) w₂ := visit_moves hmarked hvisit
      have hw₂ := Moves.sound hvisited hmarked
      have hrests : rest ⊆ entries := fun x hx => hgiven (List.mem_cons_of_mem entry hx)
      intro e he
      rcases List.mem_cons.mp he with rfl | he
      · obtain ⟨d, hknown, hfound⟩ := hloads.document
        have hnumber : (Loader.markEntry n w₁).parsed[n]? = some { d with entry := true } := by
          simp [Walk.getElem?_markEntry, hknown]
        have hmoves := hvisited.trans (visitEntries_moves hrests hw₂ hrest)
        obtain ⟨d', hknown', hentry', hsame⟩ := Moves.keepsMark hmoves hnumber rfl
        exact ⟨n, d', hknown', hentry', hfound.trans (congrArg Except.ok hsame.symm)⟩
      · exact ih hrests hw₂ hrest e he

/-- Where nothing was dropped and each target is a path, a document is marked exactly
if its path was given as an entry. -/
theorem entry_iff {uris : List String} (hw : w.Sound l codes) (hkept : w.Kept uris)
    (hmeant : uris ⊆ l.named entries w.docs)
    (hpaths : ∀ uri ∈ l.named entries w.docs, l.pathAt? uri = some uri)
    (hmarks : w.MarksEntries l codes entries)
    (hmarked : ∀ entry ∈ entries, w.HasMarked l codes entry)
    {d : Document} (hd : d ∈ w.docs) :
    d.entry = true ↔ d.path ∈ entries.map Target.normalize := by
  have hnamed : ∀ entry ∈ entries, Target.normalize entry ∈ l.named entries w.docs :=
    fun entry hentry => List.mem_append_left _ (List.mem_map_of_mem hentry)
  have hpath : ∀ uri ∈ l.named entries w.docs, ∀ e : Document,
      l.documentAt codes uri = .ok e.unmarked → e.path = uri := by
    intro uri huri e he
    have hfirst := Loader.pathAt?_of_documentAt he
    rw [hpaths uri huri] at hfirst
    exact (Option.some.inj hfirst).symm
  -- The path of a document is the target that has its number.
  have htarget : ∀ (n : Nat) (e : Document), w.parsed[n]? = some e → uris[n]? = some e.path := by
    intro n e hn
    have hlt : n < uris.length := hkept.length ▸ (List.getElem?_eq_some_iff.mp hn).choose
    have huri := List.getElem?_eq_getElem hlt
    obtain ⟨e', hn', hfound⟩ := hw.cached _ n ((hkept.cached _ n).mpr huri)
    obtain rfl : e = e' := Option.some.inj (hn.symm.trans hn')
    rw [huri, hpath _ (hmeant (List.getElem_mem hlt)) e hfound]
  constructor
  · intro hentry
    obtain ⟨entry, hgiven, hfound⟩ := hmarks d (Walk.mem_parsed_of_mem_docs hd) hentry
    exact List.mem_map.mpr ⟨entry, hgiven, (hpath _ (hnamed entry hgiven) d hfound).symm⟩
  · intro hmem
    obtain ⟨entry, hgiven, hnormal⟩ := List.mem_map.mp hmem
    obtain ⟨n, e, hn, hentry, hfound⟩ := hmarked entry hgiven
    obtain ⟨k, -, hk⟩ := List.mem_filterMap.mp hd
    have he : e.path = d.path := (hpath _ (hnamed entry hgiven) e hfound).trans hnormal
    have hnumber := (hkept.cached _ n).mpr (htarget n e hn)
    have hnumber' := (hkept.cached _ k).mpr (htarget k d hk)
    rw [he, hnumber'] at hnumber
    obtain rfl := Option.some.inj hnumber
    obtain rfl : d = e := Option.some.inj (hk.symm.trans hn)
    exact hentry

end Marks

/-! ## Loading with caches of any size -/

section Loading

variable (l : Loader) (entries : List String) (r : Reporter) (size size' : Nat)

theorem Walk.Kept.start : (Walk.start size r).Kept [] :=
  ⟨rfl, by simp [Walk.start, Cache.peek?, Table.find?]⟩

theorem Agree.start : Agree l r.nonfatal (Walk.start size r) (Walk.start size' r) :=
  ⟨.start l size r, .start l size' r, rfl, fun _ => rfl⟩

theorem docs_loadAll : (l.loadAll size entries r).docs =
    (l.visitEntries entries (Walk.start size r)).1.map fun _ =>
      (l.visitEntries entries (Walk.start size r)).2.docs := by
  unfold Loader.loadAll Walk.start
  split <;> simp_all [Except.map]

theorem unmarked_loadAll : (l.loadAll size entries r).docs.map (·.map Document.unmarked) =
    (l.loadAll size' entries r).docs.map (·.map Document.unmarked) := by
  have halike := (Agree.start l r size size').visitEntries entries
  rw [docs_loadAll, docs_loadAll]
  generalize l.visitEntries entries (Walk.start size r) = x at halike ⊢
  generalize l.visitEntries entries (Walk.start size' r) = y at halike ⊢
  cases halike with
  | error e w w' => rfl
  | ok hagree => exact congrArg Except.ok hagree.docs

variable {l entries r size size'} {docs : List Document}

theorem moves_of_loadAll (h : (l.loadAll size entries r).docs = .ok docs) :
    ∃ w, l.visitEntries entries (Walk.start size r) = (.ok (), w) ∧ docs = w.docs ∧
      Moves l r.nonfatal entries (Walk.start size r) w ∧ w.cache.size = size := by
  obtain ⟨w, hrun, hdocs, -⟩ := loadAll_ok h
  have hmoves := visitEntries_moves (List.Subset.refl entries) (.start l size r) hrun
  exact ⟨w, hrun, hdocs, hmoves, Moves.size hmoves⟩

theorem loadAll_of_room (h : (l.loadAll size entries r).docs = .ok docs)
    (hroom : (l.named entries docs).dedup.length ≤ size)
    (hroom' : (l.named entries docs).dedup.length ≤ size') :
    (l.loadAll size' entries r).docs = .ok docs := by
  obtain ⟨w, hrun, rfl, hmoves, hsize⟩ := moves_of_loadAll h
  have hfits := Moves.fits hmoves (.start l size r) (.start r size) (hsize ▸ hroom)
  have halike := (Agree.start l r size size').visitEntries entries
  rw [docs_loadAll]
  cases hrun' : l.visitEntries entries (Walk.start size' r) with
  | mk y w' =>
      rw [hrun, hrun'] at halike
      cases halike with
      | ok hagree =>
          have hsize' : w'.cache.size = size' := Moves.size
            (visitEntries_moves (List.Subset.refl entries) (.start l size' r) hrun')
          rw [hagree.exact ⟨by omega, by omega⟩]
          rfl

/-- The cache is transparent but for the marks. Caches of any two sizes give the same
failure, or the same documents apart from their marks, and only documents of entries
are marked. With room for all targets that entries and includes name, the marks are
the same too; and where each of these targets is the path of a file, the documents
that are marked are those whose path is an entry. -/
theorem loadAll_cacheSize (l : Loader) (entries : List String) (r : Reporter) (size size' : Nat) :
    (l.loadAll size entries r).docs.map (·.map Document.unmarked) =
        (l.loadAll size' entries r).docs.map (·.map Document.unmarked) ∧
      ∀ docs, (l.loadAll size entries r).docs = .ok docs →
        (∀ d ∈ docs, d.entry = true → ∃ entry ∈ entries,
          l.documentAt r.nonfatal (Target.normalize entry) = .ok d.unmarked) ∧
        ((l.named entries docs).dedup.length ≤ size →
          ((l.named entries docs).dedup.length ≤ size' →
            (l.loadAll size' entries r).docs = .ok docs) ∧
          ((∀ uri ∈ l.named entries docs, l.pathAt? uri = some uri) →
            ∀ d ∈ docs, d.entry = true ↔ d.path ∈ entries.map Target.normalize)) := by
  refine ⟨unmarked_loadAll l entries r size size', fun docs hdocs => ?_⟩
  obtain ⟨w, hrun, rfl, hmoves, hsize⟩ := moves_of_loadAll hdocs
  have hstart := Walk.Sound.start l size r
  have hmarks : w.MarksEntries l r.nonfatal entries :=
    Moves.marksEntries hmoves (by simp [Walk.MarksEntries, Walk.start])
  refine ⟨fun d hd => hmarks d (Walk.mem_parsed_of_mem_docs hd), fun hroom => ⟨?_, ?_⟩⟩
  · exact loadAll_of_room hdocs hroom
  intro hpaths d hd
  obtain ⟨uris, hkept, hmeant⟩ := Moves.kept hmoves hstart (.start r size) (hsize ▸ hroom)
  exact entry_iff (Moves.sound hmoves hstart) hkept hmeant hpaths hmarks
    (visitEntries_hasMarked (List.Subset.refl _) hstart hrun) hd

end Loading

/-- A file that includes two others. -/
def pair : List (String × String) :=
  [("a.thrift", "include 'b.thrift'\ninclude 'c.thrift'"), ("b.thrift", "typedef i32 B"),
    ("c.thrift", "typedef i32 C")]

theorem named_pair :
    ((Loader.ofMemory (Memory.ofList pair) true).loadAll 3 ["a.thrift", "b.thrift"]
        {}).docs.toOption.map
        ((Loader.ofMemory (Memory.ofList pair) true).named ["a.thrift", "b.thrift"]) =
      some ["/a.thrift", "/b.thrift", "/b.thrift", "/c.thrift"] := by
  decide +kernel

theorem loadAll_cacheSize_pair :
    let l := Loader.ofMemory (Memory.ofList pair) true
    let entries := ["a.thrift", "b.thrift"]
    ∃ docs, (l.loadAll 3 entries {}).docs = .ok docs ∧
      (l.named entries docs).dedup.length ≤ 3 ∧
      (∀ uri ∈ l.named entries docs, l.pathAt? uri = some uri) ∧
      (l.loadAll defaultCacheSize entries {}).docs = .ok docs ∧
      ∀ d ∈ docs, d.entry = true ↔ d.path ∈ entries.map Target.normalize := by
  obtain ⟨docs, hdocs, hnamed⟩ := Option.map_eq_some_iff.mp named_pair
  have hok := Source.ok_of_toOption hdocs
  have hroom : ((Loader.ofMemory (Memory.ofList pair) true).named
      ["a.thrift", "b.thrift"] docs).dedup.length ≤ 3 := by
    rw [hnamed]
    decide
  have hpaths : ∀ uri ∈ (Loader.ofMemory (Memory.ofList pair) true).named
      ["a.thrift", "b.thrift"] docs,
      (Loader.ofMemory (Memory.ofList pair) true).pathAt? uri = some uri := by
    rw [hnamed]
    decide +kernel
  have hcache := (loadAll_cacheSize (Loader.ofMemory (Memory.ofList pair) true)
    ["a.thrift", "b.thrift"] {} 3 defaultCacheSize).2 docs hok
  have hmore : 3 ≤ defaultCacheSize := by decide
  exact ⟨docs, hok, hroom, hpaths, (hcache.2 hroom).1 (Nat.le_trans hroom hmore),
    (hcache.2 hroom).2 hpaths⟩

/-- In a cache of one the second entry has been dropped when its turn comes. -/
theorem mark_lost_by_dropping :
    let l := Loader.ofMemory (Memory.ofList pair) true
    Target.normalize "b.thrift" = "/b.thrift" ∧
      (l.loadAll 1 ["a.thrift", "b.thrift"] {}).docs.toOption.map
          (·.map fun d => (d.path, d.entry)) =
        some [("/a.thrift", true), ("/b.thrift", false), ("/c.thrift", false)] ∧
      (l.loadAll 2 ["a.thrift", "b.thrift"] {}).docs.toOption.map
          (·.map fun d => (d.path, d.entry)) =
        some [("/a.thrift", true), ("/b.thrift", true), ("/c.thrift", false)] := by
  decide +kernel

/-- A file that was found beneath a directory is parsed anew for its own path. -/
example :
    ((Loader.ofMemory (Memory.ofList [("a.thrift", "include 'd'"), ("d/b.thrift", "")])
        true).loadAll defaultCacheSize ["a.thrift", "d/b.thrift"] {}).docs.toOption.map
        (·.map fun d => (d.path, d.entry)) =
      some [("/a.thrift", true), ("/d/b.thrift", false)] := by
  decide +kernel

end Load
end ClientGen
