import ClientGen.Generate.Entries
import ClientGen.Proofs.Collection.Table
import Mathlib.Data.List.Nodup
import Mathlib.Data.List.Perm.Subperm
import Mathlib.Logic.Relation

/-! # What an entry reaches

The scope of an entry holds exactly the documents that includes lead to, directly or
through others (`mem_reachable_iff`). The visits never run out of fuel: each moves on by
one document, and no more are seen than the table holds.
-/

namespace ClientGen
namespace Generate

open Relation (ReflTransGen)

variable {docs : Table Document} {start source p q : String} {seen paths : List String}

/-- Whether some include of the document at `p` means the document at `q`. -/
def Leads (docs : Table Document) (p q : String) : Prop :=
  ∃ d, docs.find? p = some d ∧ ∃ path ∈ d.includes, includedPath? docs p path = some q

theorem mem_keys_of_includedPath? {path : String} (h : includedPath? docs source path = some p) :
    p ∈ docs.keys :=
  Table.has_iff.mp (List.find?_some h)

/-! ## One document -/

/-- What is seen once the includes of a document were followed. -/
structure Discovered (docs : Table Document) (source : String) (paths seen after : List String) :
    Prop where
  keeps : seen <+: after
  once : seen.Nodup → after.Nodup
  members : ∀ p, p ∈ after ↔ p ∈ seen ∨ ∃ path ∈ paths, includedPath? docs source path = some p

theorem discovered (docs : Table Document) (source : String) (paths seen : List String) :
    Discovered docs source paths seen (discover docs source seen paths) := by
  induction paths generalizing seen with
  | nil => exact ⟨List.prefix_refl _, id, by simp [discover]⟩
  | cons path rest ih =>
      unfold discover
      cases hpath : includedPath? docs source path with
      | none =>
          obtain ⟨hkeeps, honce, hmembers⟩ := ih seen
          exact ⟨hkeeps, honce, fun p => by simp [hmembers, hpath]⟩
      | some q =>
          dsimp only
          split
          · rename_i hq
            have hq : q ∈ seen := by simpa using hq
            obtain ⟨hkeeps, honce, hmembers⟩ := ih seen
            refine ⟨hkeeps, honce, fun p => ?_⟩
            rw [hmembers]
            simp only [List.exists_mem_cons_iff, hpath, Option.some.injEq]
            constructor
            · rintro (hp | hp)
              · exact .inl hp
              · exact .inr (.inr hp)
            · rintro (hp | rfl | hp)
              · exact .inl hp
              · exact .inl hq
              · exact .inr hp
          · rename_i hq
            have hq : q ∉ seen := by simpa using hq
            obtain ⟨hkeeps, honce, hmembers⟩ := ih (seen ++ [q])
            refine ⟨(List.prefix_append seen [q]).trans hkeeps, fun hseen => honce ?_, fun p => ?_⟩
            · exact hseen.append (List.nodup_singleton q) (List.disjoint_singleton.mpr hq)
            · rw [hmembers]
              simp only [List.exists_mem_cons_iff, hpath, Option.some.injEq, List.mem_append,
                List.mem_singleton, or_assoc, eq_comm]

/-! ## All documents -/

structure Visiting (docs : Table Document) (start : String) (n : Nat) (seen : List String) :
    Prop where
  begins : start ∈ seen
  once : seen.Nodup
  known : ∀ p ∈ seen, p ∈ docs.keys
  reached : ∀ p ∈ seen, ReflTransGen (Leads docs) start p
  bound : n ≤ seen.length
  visited : ∀ p ∈ seen.take n, ∀ q, Leads docs p q → q ∈ seen

namespace Visiting

variable {n fuel : Nat}

theorem first (h : start ∈ docs.keys) : Visiting docs start 0 [start] where
  begins := List.mem_singleton_self start
  once := List.nodup_singleton start
  known p hp := by
    rw [List.mem_singleton.mp hp]
    exact h
  reached p hp := by
    rw [List.mem_singleton.mp hp]
  bound := Nat.zero_le _
  visited p hp := by simp at hp

theorem step (h : Visiting docs start n seen) (hp : seen[n]? = some p) :
    Visiting docs start (n + 1)
      (discover docs p seen (((docs.find? p).map (·.includes)).getD [])) := by
  obtain ⟨hn, hget⟩ := List.getElem?_eq_some_iff.mp hp
  have hmem : p ∈ seen := hget ▸ List.getElem_mem hn
  obtain ⟨d, hd⟩ := Table.exists_find? (h.known p hmem)
  rw [hd]
  obtain ⟨⟨new, hnew⟩, honce, hmembers⟩ := discovered docs p d.includes seen
  have hleads : ∀ q, (∃ path ∈ d.includes, includedPath? docs p path = some q) → Leads docs p q :=
    fun q hq => ⟨d, hd, hq⟩
  refine ⟨(hmembers start).mpr (.inl h.begins), honce h.once, ?_, ?_, ?_, ?_⟩
  · intro q hq
    rcases (hmembers q).mp hq with hq | ⟨path, -, hq⟩
    · exact h.known q hq
    · exact mem_keys_of_includedPath? hq
  · intro q hq
    rcases (hmembers q).mp hq with hq | hq
    · exact h.reached q hq
    · exact (h.reached p hmem).tail (hleads q hq)
  · rw [Option.map_some, Option.getD_some, ← hnew, List.length_append]
    omega
  · intro p' hp' q hq
    apply (hmembers q).mpr
    rw [Option.map_some, Option.getD_some, ← hnew, List.take_append_of_le_length (by omega),
      List.take_add_one, hp] at hp'
    rcases List.mem_append.mp hp' with hp' | hp'
    · exact .inl (h.visited p' hp' q hq)
    · obtain rfl := List.mem_singleton.mp hp'
      obtain ⟨d', hd', hpath⟩ := hq
      obtain rfl : d = d' := Option.some.inj (hd.symm.trans hd')
      exact .inr hpath

/-- With one more visit than there are documents, everything that is seen is visited. -/
theorem run (h : Visiting docs start n seen) (hfuel : docs.length < fuel + n) :
    ∃ m, Visiting docs start m (visitFrom docs fuel n seen) ∧
      (visitFrom docs fuel n seen).length ≤ m := by
  induction fuel generalizing n seen with
  | zero =>
      have hlength : seen.length ≤ docs.length := by
        have hle := (h.once.subperm h.known).length_le
        simpa [Table.keys] using hle
      have hbound := h.bound
      omega
  | succ fuel ih =>
      unfold visitFrom
      cases hp : seen[n]? with
      | none => exact ⟨n, h, List.getElem?_eq_none_iff.mp hp⟩
      | some p => exact ih (h.step hp) (by omega)

/-- From a document of the table, everything that is seen is visited in the end. -/
theorem all (h : start ∈ docs.keys) : ∃ m,
    Visiting docs start m (visitFrom docs (docs.length + 1) 0 [start]) ∧
      (visitFrom docs (docs.length + 1) 0 [start]).length ≤ m :=
  (first h).run (by omega)

theorem mem_iff (h : Visiting docs start n seen) (hall : seen.length ≤ n) :
    p ∈ seen ↔ ReflTransGen (Leads docs) start p := by
  constructor
  · exact h.reached p
  · intro hreach
    induction hreach with
    | refl => exact h.begins
    | tail _ hleads ih =>
        apply h.visited _ _ _ hleads
        rwa [List.take_of_length_le hall]

end Visiting

/-- What was seen stays in its place. -/
theorem prefix_visitFrom (docs : Table Document) (fuel n : Nat) (seen : List String) :
    seen <+: visitFrom docs fuel n seen := by
  induction fuel generalizing n seen with
  | zero => exact List.prefix_refl seen
  | succ fuel ih =>
      unfold visitFrom
      split
      · exact List.prefix_refl seen
      · rename_i p _
        exact (discovered docs p _ seen).keeps.trans (ih (n + 1) _)

/-- A scope holds the documents that includes lead to, and no others. -/
theorem mem_reachable_iff {d x : Document} (h : d.path ∈ docs.keys) :
    x ∈ reachable docs d ↔
      ∃ p, ReflTransGen (Leads docs) d.path p ∧ docs.find? p = some x := by
  obtain ⟨m, hvisiting, hall⟩ := Visiting.all h
  unfold reachable
  rw [List.mem_filterMap]
  constructor
  · rintro ⟨p, hp, hx⟩
    exact ⟨p, (hvisiting.mem_iff hall).mp hp, hx⟩
  · rintro ⟨p, hp, hx⟩
    exact ⟨p, (hvisiting.mem_iff hall).mpr hp, hx⟩

end Generate
end ClientGen
