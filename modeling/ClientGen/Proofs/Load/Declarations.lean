import ClientGen.Document.Comment
import ClientGen.Proofs.Proto.Nesting
import ClientGen.Proofs.Thrift.Nesting
import Mathlib.Data.List.Nodup

/-! # The declarations of a parse

In either language, the spans that a parse registers are properly nested
(`stop_properlyNested`), so that a token is the first of one declaration at most
and the last of one at most. It does not matter whether the parse gives a tree.
-/

namespace ClientGen
namespace Source

namespace Decl

def last (d : Decl) : Nat := d.stop - 1

/-- Whether the token at a place belongs to a declaration. -/
def Holds (d : Decl) (i : Nat) : Prop := ∃ first, d.first = some first ∧ first ≤ i ∧ i ≤ d.last

/-- Two declarations without a common token. -/
def Apart (d e : Decl) : Prop := ∀ i, d.Holds i → ¬ e.Holds i

/-- A declaration strictly inside another, which starts before it and ends after it. -/
def Inside (d e : Decl) : Prop :=
  ∃ i j, d.first = some i ∧ e.first = some j ∧ j < i ∧ d.last < e.last

end Decl

/-- Declarations among `count` tokens that are properly nested, in the order in
which they were registered. -/
structure ProperlyNested (count : Nat) (decls : List Decl) : Prop where
  spans : ∀ d ∈ decls, ∃ first, d.first = some first ∧ first ≤ d.last ∧ d.last < count
  firsts : (decls.map (·.first)).Nodup
  lasts : (decls.map (·.last)).Nodup
  apart : ∀ (m n : Nat) (d e : Decl), decls[m]? = some d → decls[n]? = some e → m ≠ n →
    d.Apart e ∨ d.Inside e ∨ e.Inside d
  inner_first : ∀ (m n : Nat) (d e : Decl), decls[m]? = some d → decls[n]? = some e →
    d.Inside e → m < n

namespace NestedIn

variable {hi : Nat} {ds : List Decl}

theorem apart_or_inside {d e : Decl} (h : NestedIn 0 hi ds) (hd : d ∈ ds) (he : e ∈ ds)
    (hde : d.Precedes e) : d.Apart e ∨ d.Inside e := by
  obtain ⟨i, hi, -, hdspan, -⟩ := h.spans d hd
  obtain ⟨j, hj, -, hespan, -⟩ := h.spans e he
  obtain ⟨i', j', hi', hj', hcases⟩ := hde
  obtain rfl : i = i' := Option.some.inj (hi.symm.trans hi')
  obtain rfl : j = j' := Option.some.inj (hj.symm.trans hj')
  rcases hcases with hbefore | ⟨hafter, hstop⟩
  · left
    intro k hdk hek
    obtain ⟨i', hi', -, hk⟩ := hdk
    obtain ⟨j', hj', hk', -⟩ := hek
    obtain rfl : j = j' := Option.some.inj (hj.symm.trans hj')
    unfold Decl.last at hk
    omega
  · right
    exact ⟨i, j, hi, hj, hafter, show d.stop - 1 < e.stop - 1 by omega⟩

theorem first_ne_of_precedes {d e : Decl} (h : NestedIn 0 hi ds) (hd : d ∈ ds)
    (hde : d.Precedes e) : d.first ≠ e.first := by
  obtain ⟨i, hi, -, hspan, -⟩ := h.spans d hd
  obtain ⟨i', j, hi', hj, hcases⟩ := hde
  obtain rfl : i = i' := Option.some.inj (hi.symm.trans hi')
  intro hsame
  have hij : i = j := Option.some.inj ((hi.symm.trans hsame).trans hj)
  omega

theorem stop_ne_of_precedes {d e : Decl} (h : NestedIn 0 hi ds) (he : e ∈ ds)
    (hde : d.Precedes e) : d.stop ≠ e.stop := by
  obtain ⟨j, hj, -, hspan, -⟩ := h.spans e he
  obtain ⟨i, j', -, hj', hcases⟩ := hde
  obtain rfl : j = j' := Option.some.inj (hj.symm.trans hj')
  omega

theorem firsts_nodup (h : NestedIn 0 hi ds) : (ds.map (·.first)).Nodup :=
  List.pairwise_map.mpr
    (h.pairs.imp_of_mem fun hd _ hde => h.first_ne_of_precedes hd hde)

theorem stops_nodup (h : NestedIn 0 hi ds) : (ds.map (·.stop)).Nodup :=
  List.pairwise_map.mpr (h.pairs.imp_of_mem fun _ he hde => h.stop_ne_of_precedes he hde)

theorem precedes_of_lt {m n : Nat} {d e : Decl} (h : NestedIn 0 hi ds) (hd : ds[m]? = some d)
    (he : ds[n]? = some e) (hlt : m < n) : d.Precedes e := by
  obtain ⟨hm, rfl⟩ := List.getElem?_eq_some_iff.mp hd
  obtain ⟨hn, rfl⟩ := List.getElem?_eq_some_iff.mp he
  exact List.pairwise_iff_getElem.mp h.pairs m n hm hn hlt

/-- A declaration that ends before another starts, or lies inside it, is not around it. -/
theorem not_inside_of_precedes {d e : Decl} (h : NestedIn 0 hi ds) (he : e ∈ ds)
    (hde : d.Precedes e) : ¬ e.Inside d := by
  obtain ⟨j, hj, -, hspan, -⟩ := h.spans e he
  obtain ⟨i, j', hi, hj', hcases⟩ := hde
  rintro ⟨j'', i', hj'', hi', hlt, hlast⟩
  obtain rfl : j = j' := Option.some.inj (hj.symm.trans hj')
  obtain rfl : j = j'' := Option.some.inj (hj.symm.trans hj'')
  obtain rfl : i = i' := Option.some.inj (hi.symm.trans hi')
  unfold Decl.last at hlast
  omega

theorem properlyNested (h : NestedIn 0 hi ds) : ProperlyNested hi ds := by
  constructor
  · intro d hd
    obtain ⟨i, hi, -, hspan, hstop⟩ := h.spans d hd
    unfold Decl.last
    exact ⟨i, hi, by omega, by omega⟩
  · exact h.firsts_nodup
  · refine List.pairwise_map.mpr (h.pairs.imp_of_mem fun {d e} hd he hde => ?_)
    obtain ⟨i, -, -, hdspan, -⟩ := h.spans d hd
    obtain ⟨j, -, -, hespan, -⟩ := h.spans e he
    have hne := h.stop_ne_of_precedes he hde
    unfold Decl.last
    omega
  · intro m n d e hd he hne
    have hdmem := List.mem_of_getElem? hd
    have hemem := List.mem_of_getElem? he
    rcases Nat.lt_or_gt_of_ne hne with hlt | hgt
    · exact (h.apart_or_inside hdmem hemem (h.precedes_of_lt hd he hlt)).imp_right .inl
    · rcases h.apart_or_inside hemem hdmem (h.precedes_of_lt he hd hgt) with hapart | hinside
      · exact .inl fun i hdi hei => hapart i hei hdi
      · exact .inr (.inr hinside)
  · intro m n d e hd he hinside
    have hdmem := List.mem_of_getElem? hd
    rcases Nat.lt_trichotomy m n with hlt | rfl | hgt
    · exact hlt
    · obtain rfl : d = e := Option.some.inj (hd.symm.trans he)
      obtain ⟨i, j, -, -, -, hlast⟩ := hinside
      omega
    · exact absurd hinside (h.not_inside_of_precedes hdmem (h.precedes_of_lt he hd hgt))

end NestedIn

end Source

namespace Load

open Source

/-- The cursor where the parse of a file in a language stops. -/
def stopOf (dialect : Dialect) (c : Cursor) : Cursor :=
  match dialect with
  | .thrift => (Thrift.file.run c).2
  | .protobuf => (Proto.file.run c).2

theorem onward_stopOf (dialect : Dialect) (c : Cursor) : Onward c (stopOf dialect c) := by
  cases dialect with
  | thrift => exact Made.onward (inferInstance : Made true Thrift.file) c
  | protobuf => exact Made.onward (inferInstance : Made true Proto.file) c

theorem encloses_stopOf (dialect : Dialect) (c : Cursor) : Encloses c (stopOf dialect c) := by
  cases dialect with
  | thrift => exact Nests.encloses (p := Thrift.file) c
  | protobuf => exact Nests.encloses (p := Proto.file) c

section Tokens

variable (dialect : Dialect) (uri : String) (all : List Token) (r : Reporter) (fatalBefore : Nat)

theorem nestedIn_stopOf :
    NestedIn 0 (all.filter fun t => t.kind.isSignificant).length
      (stopOf dialect (.ofTokens uri all r fatalBefore)).decls := by
  have htotal := (onward_stopOf dialect (.ofTokens uri all r fatalBefore)).total
  obtain ⟨new, hnew, hnested⟩ := (encloses_stopOf dialect (.ofTokens uri all r fatalBefore)).decls
  have hplace : (Cursor.ofTokens uri all r fatalBefore).place = 0 := rfl
  have hdecls : (Cursor.ofTokens uri all r fatalBefore).decls = [] := rfl
  have hrest : (Cursor.ofTokens uri all r fatalBefore).rest =
      all.filter fun t => t.kind.isSignificant := Cursor.fst_separate 0 none all
  rw [hplace, hrest] at htotal
  rw [hdecls, List.nil_append] at hnew
  rw [hnew]
  exact hnested.mono (Nat.zero_le _) (by omega)

/-- Declarations are properly nested. For either language and all tokens, the spans
that a parse registers lie among the significant tokens, no two share their first
token or their last, any two are apart or one lies strictly inside the other, and
the inner one is registered first. So each token has one candidate at most for the
declaration that starts with it, and one for the declaration that ends with it. -/
theorem stop_properlyNested :
    ProperlyNested (all.filter fun t => t.kind.isSignificant).length
        (stopOf dialect (.ofTokens uri all r fatalBefore)).decls ∧
      ∀ i, (stopOf dialect (.ofTokens uri all r fatalBefore)).decls.countP
            (fun d => d.first == some i) ≤ 1 ∧
        (stopOf dialect (.ofTokens uri all r fatalBefore)).decls.countP
            (fun d => d.stop == i) ≤ 1 := by
  have hnested := nestedIn_stopOf dialect uri all r fatalBefore
  refine ⟨hnested.properlyNested, fun i => ⟨?_, ?_⟩⟩
  · have hcount := List.nodup_iff_count_le_one.mp hnested.firsts_nodup (some i)
    rwa [List.count, List.countP_map] at hcount
  · have hcount := List.nodup_iff_count_le_one.mp hnested.stops_nodup i
    rwa [List.count, List.countP_map] at hcount

end Tokens

end Load
end ClientGen
