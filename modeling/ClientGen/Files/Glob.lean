import ClientGen.Text.Basic

/-! # Glob patterns

In a pattern `*` matches characters other than slashes, `?` one of them, `[a-z]`
and `[!a-z]` one character of a class, `{a,b}` one of some alternatives, and `\`
takes away the meaning of the next character. At the start of a segment `**/`
matches any number of whole segments, and a final `**` the rest.

Matching keeps two places to return to: the last star, which may take one more
character, and the last double star, which may take one more segment. Nothing
earlier has to be tried again, since a later star covers what an earlier one
could reach.
-/

namespace ClientGen
namespace Glob

/-- What follows the class that is open; an escaped bracket does not close it. -/
def afterClass : List Char → Option (List Char)
  | [] => none
  | '\\' :: _ :: cs => afterClass cs
  | ']' :: cs => some cs
  | _ :: cs => afterClass cs

/-- The text of a class without the mark that turns it around. -/
def classBody : List Char → List Char
  | '^' :: rest => rest
  | '!' :: rest => rest
  | rest => rest

/-- What follows the brackets of a class, when they are closed and not empty. -/
def skipClass (cs : List Char) : Option (List Char) :=
  match classBody cs with
  | [] => none
  | ']' :: _ => none
  | rest => afterClass rest

theorem afterClass_length {cs rest : List Char} (h : afterClass cs = some rest) :
    rest.length ≤ cs.length := by
  fun_induction afterClass cs with
  | case1 => simp at h
  | case2 _ cs ih => have := ih h; simp only [List.length_cons]; omega
  | case3 cs => simp at h; simp [h]
  | case4 _ cs _ _ ih => have := ih h; simp only [List.length_cons]; omega

theorem classBody_length (cs : List Char) : (classBody cs).length ≤ cs.length := by
  unfold classBody
  split <;> simp

theorem skipClass_length {cs rest : List Char} (h : skipClass cs = some rest) :
    rest.length ≤ cs.length := by
  have hb := classBody_length cs
  unfold skipClass at h
  split at h
  · simp at h
  · simp at h
  · exact Nat.le_trans (afterClass_length h) hb

/-- Whether a pattern is well formed behind `depth` open braces: escapes have
something to escape, classes are closed and not empty, braces are balanced. -/
def validAux (depth : Nat) (cs : List Char) : Bool :=
  match cs with
  | [] => depth == 0
  | '\\' :: [] => false
  | '\\' :: _ :: rest => validAux depth rest
  | '\x7b' :: rest => validAux (depth + 1) rest
  | '\x7d' :: rest => if depth = 0 then false else validAux (depth - 1) rest
  | '[' :: rest =>
    match h : skipClass rest with
    | none => false
    | some after =>
      have := skipClass_length h
      validAux depth after
  | _ :: rest => validAux depth rest
termination_by cs.length

def valid (pattern : String) : Bool := validAux 0 pattern.toList

/-- Splits the text after an opening brace at the commas of its own level, up to
the brace that closes it. `field` is the current alternative, last character
first. -/
def alternativesAux : Nat → List Char → List Char → Option (List (List Char) × List Char)
  | _, _, [] => none
  | depth, field, '\\' :: c :: rest => alternativesAux depth (c :: '\\' :: field) rest
  | depth, field, '\x7b' :: rest => alternativesAux (depth + 1) ('\x7b' :: field) rest
  | 0, field, '\x7d' :: rest => some ([field.reverse], rest)
  | depth + 1, field, '\x7d' :: rest => alternativesAux depth ('\x7d' :: field) rest
  | 0, field, ',' :: rest =>
    (alternativesAux 0 [] rest).map fun (fields, after) => (field.reverse :: fields, after)
  | depth, field, c :: rest => alternativesAux depth (c :: field) rest

/-- The alternatives after an opening brace and what follows the closing one. -/
def alternatives? (cs : List Char) : Option (List (List Char) × List Char) :=
  alternativesAux 0 [] cs

/-- The last character, above which no range can start. -/
def lastChar : Char := Char.ofNat 0x10FFFF

def rangeStart (c : Char) : Option Char := if c = lastChar then none else some c

/-- Whether the text of a class holds a character. `low` is the character that a
range may start with. -/
def classHas (c : Char) : Option Char → List Char → Bool
  | _, [] => false
  | some low, '-' :: '\\' :: high :: rest => (low ≤ c && c ≤ high) || classHas c none rest
  | some low, '-' :: high :: rest => (low ≤ c && c ≤ high) || classHas c none rest
  | _, '\\' :: p :: rest => p == c || classHas c (rangeStart p) rest
  | _, p :: rest => p == c || classHas c (rangeStart p) rest

/-- Whether a class admits a character, and what follows it. -/
def admits? (c : Char) (cs : List Char) : Option (Bool × List Char) := do
  let after ← skipClass cs
  let body := cs.take (cs.length - after.length - 1)
  match body with
  | '^' :: body => return (!classHas c none body, after)
  | '!' :: body => return (!classHas c none body, after)
  | body => return (classHas c none body, after)

/-- A place to return to. The pattern that is left there ends with the one that
is being matched. -/
structure Resume where
  pattern : List Char
  name : List Char
deriving Repr, Inhabited

/-- A place to return to after the end of its pattern was replaced. -/
def Resume.retarget (r : Resume) (old new : List Char) : Resume :=
  { r with pattern := r.pattern.take (r.pattern.length - old.length) ++ new }

/-- The patterns that match nothing at all, alternatives apart. -/
def emptyPatterns : List String := ["", "*", "**", "/**", "**/", "/**/"]

/-- Whether what is left of a pattern may match nothing. -/
def matchesEmpty : Nat → List Char → Bool
  | 0, _ => false
  | fuel + 1, cs =>
    emptyPatterns.contains (String.ofList cs) ||
      match cs with
      | '\x7b' :: rest =>
        match alternatives? rest with
        | some (fields, after) => fields.any fun f => matchesEmpty fuel (f ++ after)
        | none => false
      | _ => false

/-- The part of a name after its first slash. -/
def nextSegment? (name : List Char) : Option (List Char) :=
  match name.dropWhile (· ≠ '/') with
  | _ :: rest => some rest
  | [] => none

/-- Matches a name against a pattern. `start` says whether a segment of the
pattern starts here, `star` and `deep` are where the last star and the last
double star may take more. -/
def matchAux : Nat → Bool → List Char → List Char → Option Resume → Option Resume → Bool
  | 0, _, _, _, _, _ => false
  | fuel + 1, _, pattern, [], _, _ => matchesEmpty (fuel + pattern.length + 1) pattern
  | fuel + 1, start, pattern, c :: name, star, deep =>
    let deeper : Bool :=
      match deep with
      | some r =>
        match nextSegment? r.name with
        | some rest => matchAux fuel true r.pattern rest star (some { r with name := rest })
        | none => false
      | none => false
    let retry : Bool :=
      match star with
      | some { pattern := p, name := d :: rest } =>
        if d = '/' then deeper
        else matchAux fuel false p rest (some ⟨p, rest⟩) deep
      | _ => deeper
    let literal (p : Char) (rest : List Char) : Bool :=
      if p = c then matchAux fuel (p == '/') rest name star deep else retry
    match pattern with
    | [] => retry
    | '*' :: '*' :: rest =>
      if start && rest.isEmpty then true
      else if start && rest.head? == some '/' then
        matchAux fuel true rest.tail (c :: name) none (some ⟨rest.tail, c :: name⟩)
      else matchAux fuel false rest (c :: name) (some ⟨rest, c :: name⟩) deep
    | '*' :: rest => matchAux fuel false rest (c :: name) (some ⟨rest, c :: name⟩) deep
    | '?' :: rest => if c = '/' then retry else matchAux fuel false rest name star deep
    | '[' :: rest =>
      match admits? c rest with
      | none => false
      | some (true, after) => matchAux fuel false after name star deep
      | some (false, _) => retry
    | '\x7b' :: rest =>
      match alternatives? rest with
      | none => false
      | some (fields, after) =>
        fields.any fun f =>
          let new := f ++ after
          matchAux fuel true new (c :: name) (star.map (·.retarget pattern new))
            (deep.map (·.retarget pattern new))
    | '\\' :: [] => false
    | '\\' :: p :: rest => literal p rest
    | p :: rest => literal p rest

/-- Whether a name matches a pattern. Each return takes one more character or
segment, and between two returns the pattern is read once. -/
def isMatch (pattern name : String) : Bool :=
  let p := pattern.toList
  let n := name.toList
  let area := (p.length + 2) * (n.length + 2)
  matchAux (area * area) true p n none none

end Glob
end ClientGen
