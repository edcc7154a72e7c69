import ClientGen.Collection.Table
import Mathlib.Data.List.Nodup

/-! # Tables and distinct elements

What a lookup finds after entries were added, dropped or cut off, and that a table
made from a list has each key once. Dropping repeated elements keeps all elements, each
once and at its first place; two lists of texts are the same in increasing order and
without repetition exactly if they have the same elements (`sortDistinct_eq_iff`).
-/

namespace ClientGen

/-! ## Looking up keys -/

namespace Table

variable {α : Type} (t : Table α) {key other : String} {a : α}

theorem find?_cons (k : String) (a : α) :
    find? ((k, a) :: t) key = if key = k then some a else t.find? key := by
  by_cases hk : key = k
  · simp [find?, hk]
  · have hbeq : (key == k) = false := beq_false_of_ne hk
    simp [find?, List.lookup_cons, hbeq, hk]

theorem find?_filter_ne (h : key ≠ other) : find? (t.filter (·.1 ≠ other)) key = t.find? key := by
  induction t with
  | nil => rfl
  | cons entry t ih =>
      obtain ⟨k, a⟩ := entry
      by_cases hk : k = other
      · have hkey : key ≠ k := hk ▸ h
        rw [List.filter_cons_of_neg (by simp [hk]), find?_cons, if_neg hkey, ih]
      · rw [List.filter_cons_of_pos (by simp [hk]), find?_cons, find?_cons, ih]

variable {t}

theorem find?_of_take {n : Nat} (h : find? (t.take n) key = some a) : t.find? key = some a := by
  induction t generalizing n with
  | nil => simpa using h
  | cons entry t ih =>
      obtain ⟨k, b⟩ := entry
      cases n with
      | zero => cases h
      | succ n =>
          rw [List.take_succ_cons, find?_cons] at h
          rw [find?_cons]
          split at h
          · rename_i hk
            rwa [if_pos hk]
          · rename_i hk
            rw [if_neg hk]
            exact ih h

theorem mem_of_find? (h : t.find? key = some a) : (key, a) ∈ t := by
  obtain ⟨before, after, rfl, -⟩ := List.lookup_eq_some_iff.mp h
  simp

theorem find?_insert (t : Table α) (key : String) (a : α) :
    (t.insert key a).find? other = if other = key then some a else t.find? other := by
  induction t with
  | nil => rw [insert, find?_cons]
  | cons entry t ih =>
      obtain ⟨k, b⟩ := entry
      unfold insert
      by_cases hk : k = key
      · rw [if_pos (by simpa using hk), find?_cons, find?_cons, hk]
        by_cases hother : other = key
        · rw [if_pos hother, if_pos hother]
        · rw [if_neg hother, if_neg hother, if_neg hother]
      · rw [if_neg (by simpa using hk), find?_cons, find?_cons, ih]
        by_cases hother : other = key
        · have hne : other ≠ k := fun h => hk (h.symm.trans hother)
          rw [if_pos hother, if_pos hother, if_neg hne]
        · rw [if_neg hother, if_neg hother]

/-! ## Keys -/

theorem mem_keys_insert {k : String} : k ∈ (t.insert key a).keys ↔ k = key ∨ k ∈ t.keys := by
  induction t with
  | nil => simp [insert, keys]
  | cons entry t ih =>
      obtain ⟨k', b⟩ := entry
      unfold insert
      by_cases hk : k' = key
      · simp [hk, keys]
      · simp only [keys, beq_iff_eq, hk, if_false, List.map_cons, List.mem_cons] at ih ⊢
        rw [ih]
        exact or_left_comm

theorem nodup_keys_insert (h : t.keys.Nodup) : (t.insert key a).keys.Nodup := by
  induction t with
  | nil => simp [insert, keys]
  | cons entry t ih =>
      obtain ⟨k, b⟩ := entry
      have hcons : k ∉ keys t ∧ (keys t).Nodup := List.nodup_cons.mp h
      unfold insert
      by_cases hk : k = key
      · simpa [hk, keys] using h
      · rw [if_neg (by simpa using hk)]
        refine List.nodup_cons.mpr ⟨?_, ih hcons.2⟩
        intro hmem
        rcases mem_keys_insert.mp hmem with hsame | hmem
        · exact hk hsame
        · exact hcons.1 hmem

theorem mem_keys_ofList {entries : List (String × α)} {k : String} :
    k ∈ (ofList entries).keys ↔ k ∈ entries.map (·.1) := by
  have hfold : ∀ (entries : List (String × α)) (t : Table α),
      k ∈ keys (entries.foldl (fun t entry => insert t entry.1 entry.2) t) ↔
        k ∈ t.keys ∨ k ∈ entries.map (·.1) := by
    intro entries
    induction entries with
    | nil => simp
    | cons entry entries ih =>
        intro t
        rw [List.foldl_cons, ih, mem_keys_insert, List.map_cons, List.mem_cons, or_assoc,
          or_left_comm]
  rw [ofList, hfold]
  simp [keys]

theorem nodup_keys_ofList (entries : List (String × α)) : (ofList entries).keys.Nodup := by
  have hfold : ∀ t : Table α, t.keys.Nodup →
      (keys (entries.foldl (fun t entry => insert t entry.1 entry.2) t)).Nodup := by
    induction entries with
    | nil => exact fun t ht => ht
    | cons entry entries ih => exact fun t ht => ih _ (nodup_keys_insert ht)
  exact hfold [] List.nodup_nil

theorem find?_of_mem (hkeys : t.keys.Nodup) (h : (key, a) ∈ t) : t.find? key = some a := by
  induction t with
  | nil => cases h
  | cons entry t ih =>
      obtain ⟨k, b⟩ := entry
      have hcons : k ∉ keys t ∧ (keys t).Nodup := List.nodup_cons.mp hkeys
      rw [find?_cons]
      rcases List.mem_cons.mp h with hsame | hmem
      · obtain ⟨rfl, rfl⟩ := Prod.mk.inj hsame
        rw [if_pos rfl]
      · have hkey : key ∈ keys t := List.mem_map_of_mem hmem
        have hne : key ≠ k := fun hsame => hcons.1 (hsame ▸ hkey)
        rw [if_neg hne]
        exact ih hcons.2 hmem

theorem find?_eq_some_iff (hkeys : t.keys.Nodup) : t.find? key = some a ↔ (key, a) ∈ t :=
  ⟨mem_of_find?, find?_of_mem hkeys⟩

theorem has_iff : t.has key = true ↔ key ∈ t.keys := by
  simp [has, keys]

theorem exists_find? (h : key ∈ t.keys) : ∃ a, t.find? key = some a := by
  induction t with
  | nil => cases h
  | cons entry t ih =>
      obtain ⟨k, b⟩ := entry
      rw [find?_cons]
      by_cases hk : key = k
      · exact ⟨b, if_pos hk⟩
      · rw [if_neg hk]
        rcases List.mem_cons.mp h with hsame | hmem
        · exact absurd hsame hk
        · exact ih hmem

theorem find?_eq_none_iff : t.find? key = none ↔ key ∉ t.keys := by
  constructor
  · intro h hmem
    obtain ⟨a, ha⟩ := exists_find? hmem
    rw [h] at ha
    cases ha
  · intro h
    cases hfind : t.find? key with
    | none => rfl
    | some a => exact absurd (List.mem_map_of_mem (mem_of_find? hfind)) h

/-! ## Tables of lists -/

theorem insert_of_not_mem (h : key ∉ t.keys) : t.insert key a = t ++ [(key, a)] := by
  induction t with
  | nil => rfl
  | cons entry t ih =>
      obtain ⟨k, b⟩ := entry
      have hcons : key ≠ k ∧ key ∉ keys t := by simpa [keys] using h
      have hk : ¬ (k == key) = true := by simpa using fun hsame => hcons.1 hsame.symm
      rw [insert, if_neg hk, ih hcons.2, List.cons_append]

/-- A new key comes last. -/
theorem keys_insert : (t.insert key a).keys = if key ∈ t.keys then t.keys else t.keys ++ [key] := by
  split
  · rename_i hmem
    induction t with
    | nil => cases hmem
    | cons entry t ih =>
        obtain ⟨k, b⟩ := entry
        unfold insert
        split
        · rename_i hk
          rw [keys, keys, List.map_cons, List.map_cons, eq_of_beq hk]
        · rename_i hk
          have hrest : key ∈ keys t :=
            (List.mem_cons.mp hmem).resolve_left fun h => hk (beq_iff_eq.mpr h.symm)
          exact congrArg (k :: ·) (ih hrest)
  · rename_i hnew
    rw [insert_of_not_mem hnew, keys, List.map_append]
    rfl

/-- Entries with different keys are their own table. -/
theorem ofList_of_nodup {entries : List (String × α)} (h : (entries.map (·.1)).Nodup) :
    ofList entries = entries := by
  have hfold : ∀ (entries : List (String × α)) (t : Table α),
      ((t ++ entries).map (·.1)).Nodup →
      entries.foldl (fun t entry => insert t entry.1 entry.2) t = t ++ entries := by
    intro entries
    induction entries with
    | nil => simp
    | cons entry entries ih =>
        intro t ht
        have hfresh : entry.1 ∉ keys t := by
          rw [List.map_append, List.map_cons] at ht
          intro hmem
          exact (List.nodup_append.mp ht).2.2 _ hmem _ List.mem_cons_self rfl
        rw [List.foldl_cons, insert_of_not_mem hfresh, ih _ (by simpa using ht)]
        simp
  exact hfold entries [] (by simpa using h)

theorem mem_of_mem_insert {entry : String × α} (h : entry ∈ t.insert key a) :
    entry = (key, a) ∨ entry ∈ t := by
  induction t with
  | nil => exact .inl (List.mem_singleton.mp h)
  | cons first t ih =>
      obtain ⟨k, b⟩ := first
      unfold insert at h
      split at h
      · rcases List.mem_cons.mp h with h | h
        · exact .inl h
        · exact .inr (List.mem_cons_of_mem _ h)
      · rcases List.mem_cons.mp h with rfl | h
        · exact .inr List.mem_cons_self
        · rcases ih h with h | h
          · exact .inl h
          · exact .inr (List.mem_cons_of_mem _ h)

theorem mem_of_mem_ofList {entries : List (String × α)} {entry : String × α}
    (h : entry ∈ ofList entries) : entry ∈ entries := by
  have hfold : ∀ (entries : List (String × α)) (t : Table α),
      entry ∈ entries.foldl (fun t entry => insert t entry.1 entry.2) t →
        entry ∈ t ∨ entry ∈ entries := by
    intro entries
    induction entries with
    | nil => exact fun t ht => .inl ht
    | cons first rest ih =>
        intro t ht
        rcases ih _ ht with ht | ht
        · rcases mem_of_mem_insert ht with rfl | ht
          · exact .inr List.mem_cons_self
          · exact .inl ht
        · exact .inr (List.mem_cons_of_mem _ ht)
  rcases hfold entries [] h with h | h
  · cases h
  · exact h

theorem sorted_perm (t : Table α) : t.sorted.Perm t := List.mergeSort_perm t _

theorem pairwise_sorted (t : Table α) : t.sorted.Pairwise fun a b => a.1 ≤ b.1 := by
  have hsorted : t.sorted.Pairwise fun a b => decide (a.1 ≤ b.1) = true := by
    apply List.pairwise_mergeSort
    · intro a b c hab hbc
      exact decide_eq_true (String.le_trans (of_decide_eq_true hab) (of_decide_eq_true hbc))
    · intro a b
      simpa using String.le_total a.1 b.1
  exact hsorted.imp of_decide_eq_true

/-- Entries of a table with one key are one entry. -/
theorem entry_unique (h : t.keys.Nodup) {a b : String × α} (ha : a ∈ t) (hb : b ∈ t)
    (hkey : a.1 = b.1) : a = b := by
  have hfind := (find?_of_mem h ha).symm.trans (hkey ▸ find?_of_mem h hb)
  exact Prod.ext hkey (Option.some.inj hfind)

/-- Sorting forgets the order in which entries were given. -/
theorem sorted_of_perm {t' : Table α} (h : t.keys.Nodup) (hperm : t'.Perm t) :
    t'.sorted = t.sorted := by
  have hboth : t'.sorted.Perm t.sorted := ((sorted_perm t').trans hperm).trans (sorted_perm t).symm
  refine hboth.eq_of_pairwise (fun a b ha hb hab hba => ?_) (pairwise_sorted t') (pairwise_sorted t)
  exact entry_unique h (hperm.mem_iff.mp ((sorted_perm t').mem_iff.mp ha))
    ((sorted_perm t).mem_iff.mp hb) (String.le_antisymm hab hba)

end Table

/-! ## First occurrences -/

section Distinct

variable {α : Type} [BEq α] {seen xs : List α} {x : α}

def addNew (seen : List α) (x : α) : List α := if seen.contains x then seen else seen ++ [x]

theorem distinct_eq (xs : List α) : distinct xs = xs.foldl addNew [] := rfl

variable [LawfulBEq α]

theorem addNew_of_mem (h : x ∈ seen) : addNew seen x = seen := if_pos (List.contains_iff_mem.mpr h)

theorem addNew_of_not_mem (h : x ∉ seen) : addNew seen x = seen ++ [x] :=
  if_neg fun hmem => h (List.contains_iff_mem.mp hmem)

theorem mem_addNew {y : α} : y ∈ addNew seen x ↔ y ∈ seen ∨ y = x := by
  by_cases hx : x ∈ seen
  · rw [addNew_of_mem hx]
    constructor
    · exact .inl
    · rintro (hy | rfl)
      · exact hy
      · exact hx
  · simp [addNew_of_not_mem hx]

theorem nodup_addNew (h : seen.Nodup) : (addNew seen x).Nodup := by
  by_cases hx : x ∈ seen
  · rwa [addNew_of_mem hx]
  · rw [addNew_of_not_mem hx]
    exact h.append (List.nodup_singleton x) (List.disjoint_singleton.mpr hx)

theorem mem_foldl_addNew {y : α} : y ∈ xs.foldl addNew seen ↔ y ∈ seen ∨ y ∈ xs := by
  induction xs generalizing seen with
  | nil => simp
  | cons x xs ih => rw [List.foldl_cons, ih, mem_addNew, List.mem_cons, or_assoc]

theorem nodup_foldl_addNew (h : seen.Nodup) : (xs.foldl addNew seen).Nodup := by
  induction xs generalizing seen with
  | nil => exact h
  | cons x xs ih => exact ih (nodup_addNew h)

theorem mem_distinct : x ∈ distinct xs ↔ x ∈ xs := by
  simp [distinct_eq, mem_foldl_addNew]

theorem nodup_distinct (xs : List α) : (distinct xs).Nodup := nodup_foldl_addNew List.nodup_nil

end Distinct

/-! ## Sorted texts -/

section Sorted

variable {xs ys : List String} {x : String}

theorem sortTexts_perm (xs : List String) : (sortTexts xs).Perm xs := List.mergeSort_perm xs _

theorem pairwise_sortTexts (xs : List String) : (sortTexts xs).Pairwise (· ≤ ·) := by
  have hsorted : (sortTexts xs).Pairwise fun a b => decide (a ≤ b) = true := by
    apply List.pairwise_mergeSort
    · intro a b c hab hbc
      exact decide_eq_true (String.le_trans (of_decide_eq_true hab) (of_decide_eq_true hbc))
    · intro a b
      simpa using String.le_total a b
  exact hsorted.imp of_decide_eq_true

theorem sortTexts_of_pairwise (h : xs.Pairwise (· ≤ ·)) : sortTexts xs = xs :=
  List.mergeSort_of_pairwise (h.imp decide_eq_true)

/-- Sorting forgets the order in which texts were given. -/
theorem sortTexts_of_perm (h : xs.Perm ys) : sortTexts xs = sortTexts ys := by
  have hboth : (sortTexts xs).Perm (sortTexts ys) :=
    ((sortTexts_perm xs).trans h).trans (sortTexts_perm ys).symm
  exact hboth.eq_of_pairwise (fun a b _ _ hab hba => String.le_antisymm hab hba)
    (pairwise_sortTexts xs) (pairwise_sortTexts ys)

theorem mem_sortDistinct : x ∈ sortDistinct xs ↔ x ∈ xs := by
  rw [sortDistinct, (sortTexts_perm _).mem_iff, mem_distinct]

theorem pairwise_sortDistinct (xs : List String) : (sortDistinct xs).Pairwise (· < ·) := by
  have honce : (sortDistinct xs).Nodup := (sortTexts_perm _).nodup_iff.mpr (nodup_distinct xs)
  refine (List.Pairwise.and (pairwise_sortTexts _) honce).imp ?_
  rintro a b ⟨hle, hne⟩
  exact Std.lt_of_le_of_ne hle hne

theorem sortDistinct_eq_iff : sortDistinct xs = sortDistinct ys ↔ ∀ x, x ∈ xs ↔ x ∈ ys := by
  constructor
  · intro h x
    rw [← mem_sortDistinct, h, mem_sortDistinct]
  · intro h
    apply sortTexts_of_perm
    rw [List.perm_ext_iff_of_nodup (nodup_distinct xs) (nodup_distinct ys)]
    intro x
    rw [mem_distinct, mem_distinct, h]

end Sorted

end ClientGen
