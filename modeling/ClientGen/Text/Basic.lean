/-! # Plain text operations

Trimming, splitting, replacing and matching, each defined on the list of
characters of a text so that it can be reasoned about by induction.
-/

namespace ClientGen
namespace Text

/-- The blank characters of running text: the ASCII blanks, next line, the
no-break space and the separators of the other blocks. -/
def isSpace (c : Char) : Bool :=
  let n := c.toNat
  (9 ≤ n && n ≤ 13) || n == 32 || n == 0x85 || n == 0xA0 || n == 0x1680 ||
    (0x2000 ≤ n && n ≤ 0x200A) || n == 0x2028 || n == 0x2029 || n == 0x202F ||
    n == 0x205F || n == 0x3000

def dropTrailing {α : Type} (p : α → Bool) (cs : List α) : List α :=
  (cs.reverse.dropWhile p).reverse

/-- Drops the characters that satisfy `p` at both ends. -/
def trimBy (p : Char → Bool) (s : String) : String :=
  String.ofList (dropTrailing p (s.toList.dropWhile p))

def trimStartBy (p : Char → Bool) (s : String) : String :=
  String.ofList (s.toList.dropWhile p)

def trimEndBy (p : Char → Bool) (s : String) : String :=
  String.ofList (dropTrailing p s.toList)

def trim (s : String) : String := trimBy isSpace s

def dropStart? {α : Type} [BEq α] : List α → List α → Option (List α)
  | [], cs => some cs
  | _ :: _, [] => none
  | p :: ps, c :: cs => if p == c then dropStart? ps cs else none

def startsWith (s start : String) : Bool := start.toList.isPrefixOf s.toList

def endsWith (s tail : String) : Bool := tail.toList.isSuffixOf s.toList

def dropStart (s start : String) : String :=
  match dropStart? start.toList s.toList with
  | some rest => String.ofList rest
  | none => s

def dropEnd (s tail : String) : String :=
  match dropStart? tail.toList.reverse s.toList.reverse with
  | some rest => String.ofList rest.reverse
  | none => s

/-- Whether `part` occurs in the list, as a contiguous piece. -/
def hasInfix {α : Type} [BEq α] (part : List α) : List α → Bool
  | [] => part.isEmpty
  | c :: cs => part.isPrefixOf (c :: cs) || hasInfix part cs

def contains (s part : String) : Bool := hasInfix part.toList s.toList

/-- Splits at every occurrence of a separator, leftmost first. `skip` counts the
characters of the separator that was just met and `field` holds the current
field, last character first. -/
def splitAux (sep : List Char) : Nat → List Char → List Char → List (List Char)
  | _, field, [] => [field.reverse]
  | skip + 1, field, _ :: cs => splitAux sep skip field cs
  | 0, field, c :: cs =>
    if sep.isPrefixOf (c :: cs) then field.reverse :: splitAux sep (sep.length - 1) [] cs
    else splitAux sep 0 (c :: field) cs

/-- The fields of `s` between the occurrences of a non-empty separator. -/
def split (s sep : String) : List String :=
  (splitAux sep.toList 0 [] s.toList).map String.ofList

/-- `s` with every occurrence of the non-empty text `old` replaced, leftmost
first and without rescanning. -/
def replace (s old new : String) : String := new.intercalate (split s old)

/-- Splits at the first occurrence of a separator. -/
def cutAux (sep : List Char) : List Char → List Char → Option (List Char × List Char)
  | done, [] => if sep.isEmpty then some (done.reverse, []) else none
  | done, c :: cs =>
    match dropStart? sep (c :: cs) with
    | some rest => some (done.reverse, rest)
    | none => cutAux sep (c :: done) cs

/-- The text before and after the first occurrence of a separator. -/
def cut? (s sep : String) : Option (String × String) :=
  (cutAux sep.toList [] s.toList).map fun (a, b) => (String.ofList a, String.ofList b)

/-- The text before and after the last occurrence of a separator. -/
def cutLast? (s sep : String) : Option (String × String) :=
  (cutAux sep.toList.reverse [] s.toList.reverse).map fun (a, b) =>
    (String.ofList b.reverse, String.ofList a.reverse)

def ofNat (n : Nat) : String := String.ofList (Nat.toDigits 10 n)

/-- The decimal digits of a number, after a minus sign when it is negative. -/
def ofInt (n : Int) : String :=
  if n < 0 then "-" ++ ofNat n.natAbs else ofNat n.natAbs

/-- Hexadecimal digits in small letters, padded with zeros to a least width. -/
def hexPadded (width n : Nat) : String :=
  let digits := Nat.toDigits 16 n
  String.ofList (List.replicate (width - digits.length) '0' ++ digits)

def repeated (n : Nat) (s : String) : String := String.join (List.replicate n s)

/-- Whether a code point lies in one of the closed ranges. -/
def inRanges (ranges : List (Nat × Nat)) (n : Nat) : Bool :=
  ranges.any fun (lo, hi) => lo ≤ n && n ≤ hi

end Text
end ClientGen
