import ClientGen.Text.Basic

/-! # Slash-separated paths

Lexical operations on paths. A path is cleaned by dropping empty and `.` segments
and letting each `..` take back the segment before it; at the root it takes back
nothing.
-/

namespace ClientGen
namespace Path

def isRooted (p : String) : Bool := Text.startsWith p "/"

/-- The segments between slashes, empty ones included. -/
def segments (p : String) : List String := Text.split p "/"

def pushSegment (rooted : Bool) (kept : List String) (s : String) : List String :=
  if s = "" ∨ s = "." then kept
  else if s = ".." then
    match kept with
    | top :: rest => if top = ".." then ".." :: kept else rest
    | [] => if rooted then [] else [".."]
  else s :: kept

def cleanSegments (rooted : Bool) (ss : List String) : List String :=
  (ss.foldl (pushSegment rooted) []).reverse

def ofSegments (rooted : Bool) (ss : List String) : String :=
  let body := "/".intercalate ss
  if rooted then "/" ++ body else if body = "" then "." else body

def clean (p : String) : String :=
  ofSegments (isRooted p) (cleanSegments (isRooted p) (segments p))

/-- Paths one after the other, cleaned; empty ones are passed over. -/
def join (parts : List String) : String :=
  match parts.filter (· ≠ "") with
  | [] => ""
  | ps => clean ("/".intercalate ps)

def rooted (p : String) : String := join ["/", p]

/-- The part of a path up to its last slash, cleaned. -/
def dir (p : String) : String :=
  match Text.cutLast? p "/" with
  | some (d, _) => clean (d ++ "/")
  | none => "."

/-- The part of a path after its last slash. -/
def file (p : String) : String :=
  match Text.cutLast? p "/" with
  | some (_, f) => f
  | none => p

def base (p : String) : String :=
  if p = "" then "."
  else
    let stripped := Text.trimEndBy (· == '/') p
    if stripped = "" then "/" else file stripped

/-- The end of the last segment from its last dot on. -/
def ext (p : String) : String :=
  match Text.cutLast? (file p) "." with
  | some (_, e) => "." ++ e
  | none => ""

def stem (p : String) : String := Text.dropEnd p (ext p)

/-- The part of two segment lists that they do not share. -/
def diverge : List String → List String → List String × List String
  | a :: as, b :: bs => if a = b then diverge as bs else (a :: as, b :: bs)
  | as, bs => (as, bs)

def cleanedSegments (p : String) : List String :=
  cleanSegments (isRooted p) (segments p)

/-- The path that leads from one place to another. There is none when only one
of them is rooted, or when the way back climbs out of what is known. -/
def relative? (source target : String) : Option String :=
  let a := clean source
  let b := clean target
  if a = b then some "."
  else if isRooted a != isRooted b then none
  else
    let (up, down) := diverge (cleanedSegments a) (cleanedSegments b)
    if up.contains ".." then none
    else some ("/".intercalate (up.map (fun _ => "..") ++ down))

end Path
end ClientGen
