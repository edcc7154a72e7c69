import ClientGen.Proofs.Files.Path
import Mathlib.Data.List.DropRight

/-! # Paths that climb

Cleaned without a root, a path is a number of steps up and the names that are left to go down.
Joined to a directory from the root it takes back that many of its names (`join_eq_ofSegments`);
read from the root, where nothing can be taken back, it is its names alone. So it makes a
difference whether a path is read from the root before it is joined, exactly if it climbs and the
directory has a name to take back (`rdrop_append_inj`).

An included path that is not rooted therefore names the same file when it is spelled out, joined
to any directory. Spelling out reads a rooted one from the root, and nothing joins those.
-/

namespace ClientGen
namespace Path

section Down

variable {rooted : Bool} {kept ss : List String}

/-- Without steps up, cleaning drops empty segments and single dots only. -/
theorem foldl_pushSegment_of_down (h : ".." ∉ ss) (kept : List String) :
    ss.foldl (pushSegment rooted) kept = (ss.filter isKept).reverse ++ kept := by
  have hpush : ∀ s ∈ ss.filter isKept, ∀ kept, pushSegment rooted kept s = s :: kept := by
    intro s hs kept
    obtain ⟨hmem, hs⟩ := List.mem_filter.mp hs
    obtain ⟨hempty, hdot⟩ : s ≠ "" ∧ s ≠ "." := by simpa [isKept] using hs
    have hup : s ≠ ".." := fun heq => h (heq ▸ hmem)
    simp [pushSegment, hempty, hdot, hup]
  rw [← foldl_filter_isKept]
  generalize ss.filter isKept = ks at hpush ⊢
  induction ks generalizing kept with
  | nil => rfl
  | cons k ks ih =>
      rw [List.foldl_cons, hpush k List.mem_cons_self,
        ih _ fun s hs => hpush s (List.mem_cons_of_mem k hs), List.reverse_cons,
        List.append_assoc, List.singleton_append]

theorem cleanSegments_of_down (h : ".." ∉ ss) : cleanSegments rooted ss = ss.filter isKept := by
  rw [cleanSegments, foldl_pushSegment_of_down h, List.append_nil, List.reverse_reverse]

end Down

/-- How often a path goes up from where it starts. -/
def ascent (p : String) : Nat := (cleanSegments false (segments p)).count ".."

/-- The names that a path goes down at last. -/
def descent (p : String) : List String := (cleanSegments false (segments p)).filter (· ≠ "..")

section Climbing

variable {kept base names more : List String} {d p root : String} {n : Nat}

theorem Stacked.eq_up (h : Stacked false (".." :: kept)) : ∀ t ∈ kept, t = ".." := by
  induction kept with
  | nil => simp
  | cons top kept ih =>
      obtain ⟨-, hpush, hkept⟩ := h
      by_cases htop : top = ".."
      · subst htop
        exact List.forall_mem_cons.mpr ⟨rfl, ih hkept⟩
      · have hback : pushSegment false (top :: kept) ".." = kept := by simp [pushSegment, htop]
        rw [hback] at hpush
        have hlength := congrArg List.length hpush
        simp only [List.length_cons] at hlength
        omega

theorem pushSegment_up (h : ".." ∉ base) : pushSegment true base ".." = base.drop 1 := by
  cases base with
  | nil => simp [pushSegment]
  | cons top rest =>
      have htop : ¬ top = ".." := fun heq => h (heq ▸ List.mem_cons_self)
      simp [pushSegment, htop]

/-- Pushed onto a directory, a cleaned path takes back a name for every step up. -/
theorem Stacked.foldl_reverse_eq (h : Stacked false kept) (hbase : ".." ∉ base) :
    kept.reverse.foldl (pushSegment true) base =
      kept.filter (· ≠ "..") ++ base.drop (kept.count "..") := by
  induction kept with
  | nil => simp
  | cons s kept ih =>
      rw [List.reverse_cons, List.foldl_append, ih h.2.2, List.foldl_cons, List.foldl_nil]
      by_cases hup : s = ".."
      · subst hup
        have hnames : kept.filter (· ≠ "..") = [] :=
          List.filter_eq_nil_iff.mpr fun t ht => by simp [h.eq_up t ht]
        have hrest : ".." ∉ base.drop (kept.count "..") := fun hmem =>
          hbase (List.mem_of_mem_drop hmem)
        rw [hnames, List.nil_append, pushSegment_up hrest, List.drop_drop,
          List.filter_cons_of_neg (by simp), hnames, List.count_cons_self, List.nil_append]
      · have hplain : Plain s := ⟨h.1, hup⟩
        rw [pushSegment_plain hplain]
        simp [hup]

/-- Pushed onto a directory, a path takes back a name for every step up and adds its own. -/
theorem foldl_pushSegment_segments (hbase : ".." ∉ base) (p : String) :
    (segments p).foldl (pushSegment true) base = (descent p).reverse ++ base.drop (ascent p) := by
  have hstacked : Stacked false (cleanSegments false (segments p)).reverse :=
    stacked_cleanSegments fun _ => slash_not_mem_of_mem_segments
  rw [← foldl_cleanSegments fun _ => slash_not_mem_of_mem_segments,
    ← List.reverse_reverse (cleanSegments false (segments p)), hstacked.foldl_reverse_eq hbase,
    List.filter_reverse, List.count_reverse, descent, ascent]

/-- Read from the root, a path is its names. -/
theorem cleanSegments_segments (p : String) : cleanSegments true (segments p) = descent p := by
  rw [cleanSegments, foldl_pushSegment_segments List.not_mem_nil]
  simp

theorem rooted_eq_descent (p : String) : rooted p = ofSegments true (descent p) := by
  rw [rooted_eq, cleanSegments_segments]

theorem up_not_mem_descent (p : String) : ".." ∉ descent p := by
  simp [descent]

theorem kept_of_mem_descent {s : String} (h : s ∈ descent p) : Kept s :=
  kept_of_mem_cleanSegments (fun _ => slash_not_mem_of_mem_segments) (List.mem_of_mem_filter h)

/-- What is left of some names, and the names behind it, are names of places. -/
theorem kept_of_mem_rdrop_append (d p : String) (n : Nat) :
    ∀ s ∈ (descent d).rdrop n ++ descent p, Kept s := by
  intro s hs
  rcases List.mem_append.mp hs with hs | hs
  · exact kept_of_mem_descent (List.mem_of_mem_take hs)
  · exact kept_of_mem_descent hs

theorem up_not_mem_rdrop_append (d p : String) (n : Nat) :
    ".." ∉ (descent d).rdrop n ++ descent p := by
  intro h
  rcases List.mem_append.mp h with h | h
  · exact up_not_mem_descent d (List.mem_of_mem_take h)
  · exact up_not_mem_descent p h

theorem cleanedSegments_of_isRooted (h : isRooted d = true) : cleanedSegments d = descent d := by
  rw [cleanedSegments, h, cleanSegments_segments]

/-- Behind a rooted path, a path takes back names of it and adds its own. -/
theorem cleanSegments_append (d p : String) :
    cleanSegments true (segments d ++ segments p) = (descent d).rdrop (ascent p) ++ descent p := by
  have hbase : ".." ∉ (descent d).reverse := by simpa using up_not_mem_descent d
  have hfold : (segments d).foldl (pushSegment true) [] = (descent d).reverse :=
    List.reverse_eq_iff.mp (cleanSegments_segments d)
  rw [cleanSegments, List.foldl_append, hfold, foldl_pushSegment_segments hbase,
    List.reverse_append, List.reverse_reverse, List.rdrop_eq_reverse_drop_reverse]

theorem ne_empty_of_isRooted (h : isRooted d = true) : d ≠ "" := by
  rintro rfl
  exact absurd h (by decide)

theorem join_eq_ofSegments (h : isRooted d = true) (p : String) :
    join [d, p] = ofSegments true ((descent d).rdrop (ascent p) ++ descent p) := by
  rw [join_pair (ne_empty_of_isRooted h), h, cleanSegments_append]

/-- A slash between a directory and a path makes no difference. -/
theorem join_slash (h : isRooted d = true) (p : String) :
    join [d, "/", p] = ofSegments true ((descent d).rdrop (ascent p) ++ descent p) := by
  have hslash : segments "/" = ["", ""] := by decide
  have hd := ne_empty_of_isRooted h
  by_cases hp : p = ""
  · have hjoin : join [d, "/", p] = join [d, "/"] := by simp [join, hd, hp]
    have hnone : segments p = [""] := by rw [hp]; decide
    rw [hjoin, join_pair hd, h, ← cleanSegments_append, hslash, hnone]
    simp [cleanSegments]
  · have hjoin : join [d, "/", p] = join [d, "/" ++ "/" ++ p] := by
      simp [join, hd, hp, String.append_assoc]
    rw [hjoin, join_pair hd, h, segments_append, hslash, ← cleanSegments_append]
    simp [cleanSegments]

/-- Nothing is taken back exactly if there is nothing to take back or no step up. -/
theorem rdrop_append_inj : base.rdrop n ++ names = base ++ names ↔ base = [] ∨ n = 0 := by
  rw [List.append_left_inj]
  constructor
  · intro h
    have hlength := congrArg List.length h
    rw [List.rdrop, List.length_take] at hlength
    rw [← List.length_eq_zero_iff]
    omega
  · rintro (rfl | rfl)
    · exact List.rdrop_nil n
    · exact List.rdrop_zero base

/-- A path made of names only goes down these. -/
theorem cleanSegments_ofSegments {rooted fromRoot : Bool} (hkept : ∀ s ∈ names, Kept s)
    (hup : ".." ∉ names) :
    cleanSegments rooted (segments (ofSegments fromRoot names)) = names := by
  rw [← cleanSegments_filter_isKept, filter_segments_ofSegments hkept, cleanSegments_of_down hup,
    filter_isKept hkept]

theorem ascent_ofSegments {fromRoot : Bool} (hkept : ∀ s ∈ names, Kept s) (hup : ".." ∉ names) :
    ascent (ofSegments fromRoot names) = 0 := by
  rw [ascent, cleanSegments_ofSegments hkept hup]
  exact List.count_eq_zero.mpr hup

theorem descent_ofSegments {fromRoot : Bool} (hkept : ∀ s ∈ names, Kept s) (hup : ".." ∉ names) :
    descent (ofSegments fromRoot names) = names := by
  rw [← cleanSegments_segments, cleanSegments_ofSegments hkept hup]

theorem ascent_rooted (p : String) : ascent (rooted p) = 0 := by
  rw [rooted_eq_descent]
  exact ascent_ofSegments (fun _ => kept_of_mem_descent) (up_not_mem_descent p)

theorem descent_rooted (p : String) : descent (rooted p) = descent p := by
  rw [rooted_eq_descent]
  exact descent_ofSegments (fun _ => kept_of_mem_descent) (up_not_mem_descent p)

/-- It makes a difference to read a path from the root before it is joined if it climbs and there
is a name to take back. -/
theorem join_rooted_eq_iff (h : isRooted d = true) :
    join [d, rooted p] = join [d, p] ↔ descent d = [] ∨ ascent p = 0 := by
  rw [join_eq_ofSegments h, join_eq_ofSegments h, ascent_rooted, descent_rooted,
    ofSegments_inj (kept_of_mem_rdrop_append d p 0) (kept_of_mem_rdrop_append d p _),
    List.rdrop_zero, eq_comm (a := descent d ++ descent p), rdrop_append_inj]
  simp

theorem descent_eq_nil_iff (h : isRooted d = true) : descent d = [] ↔ clean d = "/" := by
  have hroot : "/" = ofSegments true [] := by decide
  rw [clean_eq, h, cleanedSegments_of_isRooted h, hroot,
    ofSegments_inj (fun _ => kept_of_mem_descent) (by simp)]
  simp

end Climbing

end Path

namespace Target

open ClientGen.Path

/-! ## Included paths -/

/-- A path that says how it leads from the including file. -/
def SpelledOut (p : String) : Prop :=
  Text.startsWith p "./" = true ∨ Text.startsWith p "../" = true ∨ p = ".."

theorem spelledOut_relative {p : String} (h : isRooted p = false) : SpelledOut (relative p) := by
  have hrelative : relative p =
      if Text.startsWith (clean p) "../" || clean p = ".." then clean p else "./" ++ clean p := by
    simp [relative, h]
  rw [hrelative]
  split
  · rename_i hup
    exact .inr (by simpa using hup)
  · exact .inl (Text.startsWith_append "./" (clean p))

/-- Joined to a directory, a path that is not rooted may be spelled out. -/
theorem join_relative_of_not_isRooted {d p : String} (hd : d ≠ "") (hp : isRooted p = false) :
    join [d, relative p] = join [d, p] := by
  rw [join_pair hd, join_pair hd, cleanSegments, cleanSegments, List.foldl_append,
    List.foldl_append, foldl_segments_relative hp]

/-- Joined to a directory, a rooted path may be spelled out too unless it climbs. -/
theorem join_relative_of_isRooted {d p : String} (hd : isRooted d = true) (hp : isRooted p = true) :
    join [d, relative p] = join [d, p] ↔ clean d = "/" ∨ ascent p = 0 := by
  have hrelative : relative p = rooted p := by
    rw [rooted_of_isRooted hp]
    simp [relative, hp]
  rw [hrelative, join_rooted_eq_iff hd, descent_eq_nil_iff hd]

/-- What an included path names does not depend on whether it is spelled out: this is done once,
keeps rooted paths rooted and marks the others, and changes none of the files that the path may
mean, next to the including file or from the root. Joined to a directory the two lead to the same
place too, unless the path is rooted, goes up from the root, and the directory has a name that
this takes back. -/
theorem relative_same_place (d s : String) (hd : isRooted d = true) :
    relative (relative s) = relative s ∧ isRooted (relative s) = isRooted s ∧
      (isRooted (relative s) = false → SpelledOut (relative s)) ∧
      (∀ source, candidates source (relative s) = candidates source s) ∧
      join ["/", relative s] = join ["/", s] ∧
      (join [d, relative s] = join [d, s] ↔
        isRooted s = false ∨ clean d = "/" ∨ ascent s = 0) := by
  refine ⟨relative_relative s, isRooted_relative s, fun h => ?_,
    fun source => candidates_relative source s, rooted_relative s, ?_⟩
  · exact spelledOut_relative ((isRooted_relative s).symm.trans h)
  · cases hs : isRooted s with
    | true => simpa using join_relative_of_isRooted hd hs
    | false => simpa using join_relative_of_not_isRooted (ne_empty_of_isRooted hd) hs

theorem relative_same_place_shared :
    let d := "/idl/v1"
    let s := "a//./../../shared/base.thrift/"
    isRooted d = true ∧ relative s = "../shared/base.thrift" ∧ SpelledOut (relative s) ∧
      join [d, relative s] = join [d, s] := by
  intro d s
  have hd : isRooted d = true := by decide
  have hs : isRooted s = false := by decide
  obtain ⟨-, hrooted, hspelled, -, -, hjoin⟩ := relative_same_place d s hd
  exact ⟨hd, by decide, hspelled (hrooted.trans hs), hjoin.mpr (.inl hs)⟩

/-- Joined to a directory, a rooted path that climbs is another file once it is spelled out. -/
theorem climbing_root_renamed :
    isRooted "/a" = true ∧ join ["/a", relative "/../x"] = "/a/x" ∧
      join ["/a", "/../x"] = "/x" ∧ join ["/a", relative "/../x"] ≠ join ["/a", "/../x"] := by
  decide

end Target
end ClientGen
