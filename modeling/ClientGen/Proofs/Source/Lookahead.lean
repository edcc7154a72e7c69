import Mathlib.Data.List.Basic
import ClientGen.Source.Lookahead

/-! # What a stream with a window answers

A filled window shows a stretch of the filtered values, and the stream behind it
holds the filtered values after that stretch. Every request leaves this picture as
it is, but for the place of the stretch, and so the answers to any requests follow
from the place where the first one puts it.
-/

namespace ClientGen
namespace Source

variable {α : Type}

/-- The places `i`, …, `i + n - 1` of a list, those past its end included. -/
def stretch (vs : List α) (i n : Nat) : List (Option α) := (List.range' i n).map (vs[·]?)

@[simp]
theorem stretch_zero (vs : List α) (i : Nat) : stretch vs i 0 = [] := rfl

theorem stretch_succ (vs : List α) (i n : Nat) :
    stretch vs i (n + 1) = vs[i]? :: stretch vs (i + 1) n := rfl

theorem stretch_concat (vs : List α) (i n : Nat) :
    stretch vs i n ++ [vs[i + n]?] = stretch vs i (n + 1) := by
  simp [stretch, List.range'_1_concat]

theorem getElem?_stretch (vs : List α) {i n k : Nat} (hinside : k < n) :
    (stretch vs i n)[k]?.join = vs[i + k]? := by
  simp [stretch, hinside]

/-- The places past the end show nothing. -/
theorem stretch_length (vs : List α) (n : Nat) :
    stretch vs vs.length n = List.replicate n none := by
  refine List.eq_replicate_iff.mpr ⟨by simp [stretch], fun slot hshown => ?_⟩
  obtain ⟨place, hinside, rfl⟩ := List.mem_map.mp hshown
  exact List.getElem?_eq_none (List.mem_range'_1.mp hinside).1

/-- The places of a stretch that have a value. -/
theorem filterMap_stretch (vs : List α) (i n : Nat) :
    (stretch vs i n).filterMap id = (vs.drop i).take n := by
  induction n generalizing i with
  | zero => rfl
  | succ n ih =>
    rw [stretch_succ]
    rcases Nat.lt_or_ge i vs.length with hinside | hpast
    · rw [List.drop_eq_getElem_cons hinside, List.getElem?_eq_getElem hinside,
        List.take_succ_cons, ← ih]
      rfl
    · rw [List.getElem?_eq_none hpast, List.filterMap_cons_none rfl, ih,
        List.drop_eq_nil_of_le hpast, List.drop_eq_nil_of_le (Nat.le_succ_of_le hpast)]
      simp

/-- A request to the stream takes the first of the filtered values. -/
theorem pull_filter (keep : α → Bool) (values : List α) :
    (pull keep values).1 = (values.filter keep)[0]? ∧
      (pull keep values).2.filter keep = (values.filter keep).drop 1 := by
  induction values with
  | nil => simp [pull]
  | cons value rest ih => cases hkept : keep value <;> simp [pull, hkept, ih]

/-- Requests one after the other take the filtered values in order. -/
theorem pulls_filter (keep : α → Bool) (n : Nat) (values : List α) :
    (pulls keep n values).1 = stretch (values.filter keep) 0 n ∧
      (pulls keep n values).2.filter keep = (values.filter keep).drop n := by
  suffices hall : ∀ (vs : List α) (i : Nat), values.filter keep = vs.drop i →
      (pulls keep n values).1 = stretch vs i n ∧
        (pulls keep n values).2.filter keep = vs.drop (i + n) by
    simpa using hall (values.filter keep) 0 rfl
  intro vs
  induction n generalizing values with
  | zero =>
    intro i hbehind
    simpa [pulls] using hbehind
  | succ n ih =>
    intro i hbehind
    obtain ⟨hfirst, hrest⟩ := pull_filter keep values
    have hafter : (pull keep values).2.filter keep = vs.drop (i + 1) := by
      rw [hrest, hbehind, List.drop_drop]
    obtain ⟨hshown, hleft⟩ := ih (pull keep values).2 (i + 1) hafter
    refine ⟨?_, ?_⟩
    · simp only [pulls, stretch_succ, hshown, hfirst, hbehind]
      simp
    · simpa [pulls, Nat.add_assoc, Nat.add_comm 1 n] using hleft

namespace Lookahead

/-- The window is filled and stands on the value at place `i`. -/
structure Stands (l : Lookahead α) (vs : List α) (i : Nat) : Prop where
  window : l.window = some (stretch vs i (l.size + 1))
  behind : l.values.filter l.keep = vs.drop (i + l.size + 1)

theorem slots_of_lt {l : Lookahead α} (hsmall : l.size < 255) : l.slots = l.size + 1 :=
  Nat.mod_eq_of_lt (by omega)

theorem fits_iff {l : Lookahead α} (hsmall : l.size ≤ 255) : l.fits = true ↔ l.size ≠ 255 := by
  rcases Nat.lt_or_eq_of_le hsmall with hbelow | htop
  · simp only [fits, slots_of_lt hbelow, decide_eq_true_eq]
    omega
  · simp [fits, slots, htop]

theorem fits_congr {l l' : Lookahead α} (hsame : l'.size = l.size) : l'.fits = l.fits := by
  have hslots : l'.slots = l.slots := by rw [slots, slots, hsame]
  exact decide_eq_decide.mpr (by rw [hsame, hslots])

/-- Whichever request comes first, filling the window puts it on the first value. -/
theorem stands_filled {l : Lookahead α} (hfresh : l.window = none) :
    l.filled.1 = stretch (l.values.filter l.keep) 0 (l.size + 1) ∧
      l.filled.2.Stands (l.values.filter l.keep) 0 ∧ l.filled.2.size = l.size := by
  obtain ⟨hshown, hleft⟩ := pulls_filter l.keep (l.size + 1) l.values
  refine ⟨?_, ⟨?_, ?_⟩, ?_⟩ <;> simp [filled, hfresh, hshown, hleft]

namespace Stands

variable {l : Lookahead α} {vs : List α} {i : Nat}

/-- The next value is that of the next place, where the window then stands. -/
theorem next (hstands : l.Stands vs i) :
    l.next.1 = vs[i + 1]? ∧ l.next.2.Stands vs (i + 1) ∧ l.next.2.size = l.size := by
  obtain ⟨hfirst, hrest⟩ := pull_filter l.keep l.values
  have hpulled : (pull l.keep l.values).1 = vs[i + 1 + l.size]? := by
    rw [hfirst, hstands.behind, List.getElem?_drop]
    congr 1
    omega
  have hmoved : (stretch vs i (l.size + 1)).tail ++ [(pull l.keep l.values).1] =
      stretch vs (i + 1) (l.size + 1) := by
    rw [stretch_succ, List.tail_cons, hpulled, stretch_concat]
  have hleft : (pull l.keep l.values).2.filter l.keep = vs.drop (i + 1 + l.size + 1) := by
    rw [hrest, hstands.behind, List.drop_drop]
    congr 1
    omega
  refine ⟨?_, ⟨?_, ?_⟩, ?_⟩ <;> simp only [Lookahead.next, hstands.window, hmoved, hleft]
  exact getElem?_stretch vs (Nat.succ_pos _)

/-- A peek shows a value of the window and changes nothing. -/
theorem peek (hstands : l.Stands vs i) (k : Nat) :
    l.peek k = (if k ≤ l.size then vs[i + k]? else none, l) := by
  simp only [Lookahead.peek, filled, hstands.window]
  by_cases hinside : k ≤ l.size
  · rw [if_pos hinside, if_pos hinside, getElem?_stretch vs (by omega)]
  · rw [if_neg hinside, if_neg hinside]

/-- Collecting gives the values after the current one, and leaves the window past all. -/
theorem collect (hstands : l.Stands vs i) :
    l.collect.1 = vs.drop (i + 1) ∧ l.collect.2.Stands vs vs.length := by
  have hpending : (stretch vs i (l.size + 1)).tail.filterMap id =
      (vs.drop (i + 1)).take l.size := by
    rw [stretch_succ, List.tail_cons, filterMap_stretch]
  refine ⟨?_, ⟨?_, ?_⟩⟩
  · have hbehind : l.values.filter l.keep = (vs.drop (i + 1)).drop l.size := by
      rw [hstands.behind, List.drop_drop]
      congr 1
      omega
    simp only [Lookahead.collect, hstands.window, hpending, hbehind, List.take_append_drop]
  · simp [Lookahead.collect, stretch_length]
  · simp [Lookahead.collect, List.drop_eq_nil_of_le, Nat.add_assoc]

end Stands

namespace Call

/-- Only `next` moves on. -/
def reads : Call → Nat
  | .next => 1
  | .ahead _ => 0

/-- What a request is promised when `i` of the values have been read: the next one, or
the one `k` places further on if the window reaches it. -/
def promised (size : Nat) (vs : List α) (i : Nat) : Call → Option α
  | .next => vs[i]?
  | .ahead k => if k ≤ size then vs[i + k - 1]? else none

end Call

/-- What the requests are promised when `i` of the values have been read. -/
def promises (size : Nat) (vs : List α) (i : Nat) : List Call → List (Option α)
  | [] => []
  | c :: calls => c.promised size vs i :: promises size vs (i + c.reads) calls

/-- The values that count as read before the first request: a look ahead that comes
first fills the window, and the next value counts from there. -/
def lead : List Call → Nat
  | .ahead _ :: _ => 1
  | _ => 0

/-- One request to a window that stands on a value: `i + 1` values have been read. -/
theorem call_stands {l : Lookahead α} {vs : List α} {i : Nat} (hfits : l.fits = true)
    (hstands : l.Stands vs i) (c : Call) :
    ∃ l', l.call c = some (c.promised l.size vs (i + 1), l') ∧
      l'.Stands vs (i + c.reads) ∧ l'.size = l.size := by
  cases c with
  | next =>
    obtain ⟨hshown, hmoved, hsame⟩ := hstands.next
    exact ⟨l.next.2, by simp [call, hfits, Call.promised, ← hshown], hmoved, hsame⟩
  | ahead k =>
    refine ⟨l, ?_, hstands, rfl⟩
    have hplace : i + 1 + k - 1 = i + k := by omega
    simp [call, hfits, hstands.peek, Call.promised, hplace]

/-- The first request fills the window: a look ahead already counts one value as read. -/
theorem call_fresh {l : Lookahead α} (hfits : l.fits = true) (hfresh : l.window = none)
    (c : Call) (calls : List Call) :
    ∃ l', l.call c = some (c.promised l.size (l.values.filter l.keep) (lead (c :: calls)), l') ∧
      l'.Stands (l.values.filter l.keep) 0 ∧ l'.size = l.size := by
  obtain ⟨hshown, hstands, hsame⟩ := stands_filled hfresh
  refine ⟨l.filled.2, ?_, hstands, hsame⟩
  cases c with
  | next =>
    have hfirst := getElem?_stretch (l.values.filter l.keep) (i := 0) (Nat.succ_pos l.size)
    simp only [call, hfits, if_true, next, hfresh, hshown, hfirst, Call.promised, lead]
  | ahead k =>
    have hplace : 1 + k - 1 = 0 + k := by omega
    simp only [call, hfits, if_true, peek, hshown, hsame, Call.promised, lead, hplace]
    by_cases hinside : k ≤ l.size
    · rw [if_pos hinside, if_pos hinside, getElem?_stretch _ (by omega)]
    · rw [if_neg hinside, if_neg hinside]

/-- Requests to a window that stands on a value get what they are promised. -/
theorem run_stands (vs : List α) (calls : List Call) :
    ∀ {l : Lookahead α} {i : Nat}, l.fits = true → l.Stands vs i →
      l.run calls = some (promises l.size vs (i + 1) calls) := by
  induction calls with
  | nil => exact fun _ _ => rfl
  | cons c calls ih =>
    intro l i hfits hstands
    obtain ⟨l', hanswered, hmoved, hsame⟩ := call_stands hfits hstands c
    have hfits' : l'.fits = true := (fits_congr hsame).trans hfits
    have hrest := ih hfits' hmoved
    simp only [run, hanswered, hrest, promises, hsame, Option.bind_eq_bind, Option.bind_some]
    rw [Nat.add_right_comm]
    rfl

/-- The answers of a window that has the slots it needs. -/
theorem run_fits {l : Lookahead α} (hfits : l.fits = true) (hfresh : l.window = none)
    (calls : List Call) :
    l.run calls = some (promises l.size (l.values.filter l.keep) (lead calls) calls) := by
  cases calls with
  | nil => rfl
  | cons c calls =>
    obtain ⟨l', hanswered, hstands, hsame⟩ := call_fresh hfits hfresh c calls
    have hfits' : l'.fits = true := (fits_congr hsame).trans hfits
    have hcounted : 0 + 1 = lead (c :: calls) + c.reads := by cases c <;> rfl
    simp only [run, hanswered, run_stands _ calls hfits' hstands, promises, hsame, hcounted,
      Option.bind_eq_bind, Option.bind_some]
    rfl

/-- A window that lacks a slot fails at the first request. -/
theorem run_unfit {l : Lookahead α} (hunfit : l.fits = false) {calls : List Call}
    (hne : calls ≠ []) : l.run calls = none := by
  cases calls with
  | nil => exact absurd rfl hne
  | cons c calls => cases c <;> simp [run, call, hunfit]

end Lookahead

open Lookahead

/-- What a stream with a window answers to any requests, for every window size, filter
and list of values. A size of 255 leaves no room for the current value, and the first
request fails. All other windows keep their promises from the first request on, where a
look ahead that comes first counts the first value as read. -/
theorem lookahead_run {size : Nat} (hbyte : size ≤ 255) (keep : α → Bool) (values : List α)
    (calls : List Call) :
    ({ size, values, keep } : Lookahead α).run calls =
      if size = 255 ∧ calls ≠ [] then none
      else some (promises size (values.filter keep) (lead calls) calls) := by
  have hroom := fits_iff (l := ({ size, values, keep } : Lookahead α)) hbyte
  split_ifs with hcramped
  · exact run_unfit (by simpa [hcramped.1] using hroom) hcramped.2
  · rcases Decidable.em (calls = []) with rfl | hne
    · rfl
    · exact run_fits (hroom.mpr fun htop => hcramped ⟨htop, hne⟩) rfl calls

/-- Past the odd values: a window of one, the look ahead behind the first `next`. -/
theorem lookahead_run_even :
    ({ size := 1, values := [1, 2, 4, 5, 6], keep := fun v => v % 2 == 0 } : Lookahead Nat).run
        [.next, .ahead 1, .next, .next, .ahead 1] =
      some [some 2, some 4, some 4, some 6, none] :=
  (lookahead_run (by decide) _ _ _).trans (by decide)

/-- A look ahead that comes first shows the second value for the first, and the `next`
behind it passes over the first value; the widest window fails at once. -/
theorem value_skipped_by_looking_first :
    ({ size := 1, values := [1, 2, 3] } : Lookahead Nat).run [.ahead 1, .next] ≠
        some (promises 1 [1, 2, 3] 0 [.ahead 1, .next]) ∧
      ({ size := 1, values := [1, 2, 3] } : Lookahead Nat).run [.ahead 1, .next] =
        some [some 2, some 2] ∧
      promises 1 [1, 2, 3] 0 [.ahead 1, .next] = [some 1, some 1] ∧
      ({ size := 255, values := [1] } : Lookahead Nat).run [.next] = none ∧
      promises 255 [1] 0 [.next] = [some 1] := by
  decide

/-- Which requests get what a stream read from its start promises, whatever its values:
those that a `next` comes first of, unless the window is the widest. -/
theorem promises_kept_iff {size : Nat} (hbyte : size ≤ 255) {calls : List Call}
    (hwithin : ∀ k, Call.ahead k ∈ calls → 1 ≤ k ∧ k ≤ size) :
    (∀ values : List Nat, ({ size, values } : Lookahead Nat).run calls =
        some (promises size values 0 calls)) ↔
      calls = [] ∨ size ≠ 255 ∧ calls.head? = some .next := by
  have hroom (values : List Nat) := fits_iff (l := ({ size, values } : Lookahead Nat)) hbyte
  have hall (values : List Nat) : values.filter (fun _ => true) = values := by simp
  have hnarrow (hne : calls ≠ []) (hkept : ({ size, values := [] } : Lookahead Nat).run calls =
      some (promises size [] 0 calls)) : size ≠ 255 := by
    rintro rfl
    have hunfit := run_unfit (l := ({ size := 255, values := [] } : Lookahead Nat)) rfl hne
    exact Option.some_ne_none _ (hkept.symm.trans hunfit)
  match calls with
  | [] => exact ⟨fun _ => .inl rfl, fun _ _ => rfl⟩
  | .next :: calls =>
    refine ⟨fun hkept => .inr ⟨hnarrow nofun (hkept []), rfl⟩, fun hallowed values => ?_⟩
    have hfits := (hroom values).mpr (hallowed.resolve_left nofun).1
    exact (run_fits hfits rfl _).trans (by rw [hall]; rfl)
  | .ahead k :: calls =>
    refine ⟨fun hkept => ?_, fun hallowed => nomatch (hallowed.resolve_left nofun).2⟩
    -- the values 0, …, k tell the place a look ahead shows from the one it is promised
    have hfits := (hroom (List.range (k + 1))).mpr (hnarrow nofun (hkept []))
    have hsame := (run_fits hfits rfl (.ahead k :: calls)).symm.trans (hkept _)
    obtain ⟨habove, hbelow⟩ := hwithin k List.mem_cons_self
    have hplace : 1 + k - 1 < k + 1 ∧ 0 + k - 1 < k + 1 := by omega
    simp only [hall, promises, lead, Call.promised, hbelow, if_true, Option.some.injEq,
      List.cons.injEq, List.getElem?_range hplace.1, List.getElem?_range hplace.2] at hsame
    omega

end Source
end ClientGen
