import ClientGen.Files.Path
import ClientGen.Text.Basic
import ClientGen.Text.LetterCase
import ClientGen.Text.Utf8

/-! # Resource locators and targets

Targets may be given as locators. Only the scheme and the path are of use here,
but a locator that is malformed anywhere is none.
-/

namespace ClientGen

/-! ## Network addresses

The addresses of 128 bits that hosts in square brackets have to be: eight groups
of hexadecimal digits, of which two dots may leave out a run of zeros, and of
which the last two may be written as four decimal numbers.
-/

namespace Address

/-- Whether a text is a number of at most one byte, without needless zeros. -/
def isOctet (s : String) : Bool :=
  let digits := s.toList
  digits.all Char.isDigit &&
    match digits with
    | [] => false
    | [_] => true
    | d :: _ => d != '0' && digits.length ≤ 3 &&
      decide (digits.foldl (fun n c => n * 10 + (c.toNat - '0'.toNat)) 0 ≤ 255)

/-- Whether a text is four octets between points. -/
def isDotted (s : String) : Bool :=
  let octets := Text.split s "."
  octets.length == 4 && octets.all isOctet

/-- Whether a text is a group of hexadecimal digits. -/
def isGroup (s : String) : Bool :=
  let digits := s.toList
  0 < digits.length && digits.length ≤ 4 && digits.all fun c => (Text.hexDigit? c).isSome

/-- How many groups some texts stand for. Only the last of an address may be
dotted, and then it counts twice. -/
def width? (closing : Bool) : List String → Option Nat
  | [] => some 0
  | s :: rest =>
    if isGroup s then (width? closing rest).map (· + 1)
    else if closing && rest.isEmpty && isDotted s then some 2 else none

/-- The groups of a part of an address. An empty part has none. -/
def groups (s : String) : List String := if s = "" then [] else Text.split s ":"

def isAddress (s : String) : Bool :=
  match Text.cut? s "::" with
  | none => width? true (groups s) == some 8
  | some (before, after) =>
    match width? false (groups before), width? true (groups after) with
    | some m, some n => m + n < 8
    | _, _ => false

end Address

/-! ## Locators -/

/-- The scheme of a locator and the bytes of its path. An opaque locator has no path. -/
structure Url where
  scheme : String := ""
  bytes : List UInt8 := []
deriving DecidableEq, Repr, Inhabited

namespace Url

def path (u : Url) : String := Text.decode u.bytes

/-- Replaces percent escapes by the bytes they stand for. `plain` says which
other characters may stand for themselves, `byte` which bytes may be escaped. -/
def unescapeAux (plain : Char → Bool) (byte : Nat → Bool) : List Char → Option (List UInt8)
  | '%' :: a :: b :: rest => do
    let hi ← Text.hexDigit? a
    let lo ← Text.hexDigit? b
    if byte (hi * 16 + lo) then
      let bytes ← unescapeAux plain byte rest
      return UInt8.ofNat (hi * 16 + lo) :: bytes
    else none
  | c :: rest =>
    if c = '%' || !plain c then none
    else do
      let bytes ← unescapeAux plain byte rest
      return (String.ofList [c]).toUTF8.toList ++ bytes
  | [] => some []

/-- The bytes behind percent escapes; every character may stand for itself. -/
def unescape? (s : String) : Option (List UInt8) :=
  unescapeAux (fun _ => true) (fun _ => true) s.toList

def isAlphanumeric (c : Char) : Bool := c.toNat < 128 && c.isAlphanum

def isHostChar (c : Char) : Bool :=
  c.toNat ≥ 128 || isAlphanumeric c || "!$&'()*+,;=:[]<>\"-_.~".toList.contains c

def isUserChar (c : Char) : Bool :=
  isAlphanumeric c || "-._:~!$&'()*+,;=%@".toList.contains c

def isHostNumber : List Char → Bool
  | [] => true
  | ':' :: digits => digits.all Char.isDigit
  | _ => false

/-- Whether a host with its escapes is well formed. Bytes below the upper half
may not be escaped, the percent sign apart. -/
def isHostName (s : String) : Bool :=
  (unescapeAux isHostChar (fun n => n ≥ 128 || n == 0x25) s.toList).isSome

/-- Whether the zone of an address is well formed. Only what may stand in a host,
blanks and percent signs may be escaped. -/
def isZone (s : String) : Bool :=
  let escaped (n : Nat) : Bool :=
    n == 0x25 || n == 0x20 || (n < 128 && isHostChar (Char.ofNat n))
  s != "" && (unescapeAux isHostChar escaped s.toList).isSome

/-- Whether a host in brackets is an address, perhaps with a zone behind it. -/
def isLiteral (s : String) : Bool :=
  match Text.cut? s "%25" with
  | some (address, zone) => Address.isAddress address && isZone zone
  | none => Address.isAddress s

/-- Whether a host, perhaps with a number behind it, is well formed. Brackets
stand around a whole host. -/
def isHost (s : String) : Bool :=
  if s.toList.contains '[' then
    match Text.cutLast? (Text.dropStart s "[") "]" with
    | none => false
    | some (host, number) =>
      Text.startsWith s "[" && isLiteral host && isHostNumber number.toList
  else
    match Text.cutLast? s ":" with
    | some (_, number) => isHostNumber (':' :: number.toList) && isHostName s
    | none => isHostName s

/-- Whether an authority is well formed: a host, perhaps behind user information. -/
def isAuthority (s : String) : Bool :=
  match Text.cutLast? s "@" with
  | some (user, host) =>
    isHost host && user.toList.all isUserChar && (unescape? user).isSome
  | none => isHost s

/-- The scheme in front of a locator, read character by character. A colon at
the very start is malformed. -/
def schemeAux : List Char → List Char → Option (Option (List Char × List Char))
  | _, [] => some none
  | done, c :: rest =>
    if c.toNat < 128 && c.isAlpha then schemeAux (c :: done) rest
    else if c.isDigit || c = '+' || c = '-' || c = '.' then
      if done.isEmpty then some none else schemeAux (c :: done) rest
    else if c = ':' then if done.isEmpty then none else some (some (done.reverse, rest))
    else some none

def splitScheme? (s : String) : Option (String × String) :=
  match schemeAux [] s.toList with
  | none => none
  | some none => some ("", s)
  | some (some (scheme, rest)) => some (Text.lower (String.ofList scheme), String.ofList rest)

/-- The part of a text before its first occurrence of a separator. -/
def before (s sep : String) : String := ((Text.cut? s sep).map (·.1)).getD s

/-- The locator of a text without fragment. -/
def parseBase? (s : String) : Option Url := do
  if s.toList.any fun c => c.toNat < 32 || c.toNat == 127 then none
  if s = "*" then return { bytes := "*".toUTF8.toList }
  let (scheme, rest) ← splitScheme? s
  let rest := before rest "?"
  if !Text.startsWith rest "/" && scheme ≠ "" then return { scheme }
  if !Text.startsWith rest "/" && Text.contains (before rest "/") ":" then none
  if Text.startsWith rest "//" && (scheme ≠ "" || !Text.startsWith rest "///") then
    let (authority, path) :=
      match Text.cut? (Text.dropStart rest "//") "/" with
      | some (a, p) => (a, "/" ++ p)
      | none => (Text.dropStart rest "//", "")
    if !isAuthority authority then none
    return { scheme, bytes := ← unescape? path }
  return { scheme, bytes := ← unescape? rest }

def parse? (s : String) : Option Url := do
  let (base, fragment) := (Text.cut? s "#").getD (s, "")
  let url ← parseBase? base
  if (unescape? fragment).isNone then none
  return url

end Url

/-! ## Targets

How the names of files that users and interface files give are brought into one
form.
-/

namespace Target

/-- A target as a path from the root. Locators of another scheme than files, and
malformed ones, stay as they are. -/
def normalize (target : String) : String :=
  match Url.parse? target with
  | none => target
  | some u =>
    if u.scheme = "" then Path.rooted target
    else if u.scheme = "file" then Path.rooted u.path
    else target

/-- An included path with its way spelled out: rooted, or starting with a dot. -/
def relative (path : String) : String :=
  let cleaned := Path.clean path
  if Path.isRooted path then cleaned
  else if Text.startsWith cleaned "../" || cleaned = ".." then cleaned
  else "./" ++ cleaned

/-- The paths that an included path may mean: next to the including file, then
from the root. -/
def candidates (source path : String) : List String :=
  if Path.isRooted path then [Path.rooted path]
  else [Path.join [Path.dir source, path], Path.rooted path]

end Target

end ClientGen
