/-! # Reading UTF-8

Source text may hold bytes that are no UTF-8. Such a byte reads as one
replacement character, so that every byte sequence is some text.
-/

namespace ClientGen
namespace Text

/-- Stands for a byte that is part of no well-formed sequence. -/
def replacement : Char := Char.ofNat 0xFFFD

def byteOrderMark : Char := Char.ofNat 0xFEFF

def isContinuation (b : UInt8) : Bool := 0x80 ≤ b && b ≤ 0xBF

/-- The six payload bits of a continuation byte. -/
def payload (b : UInt8) : Nat := b.toNat % 64

/-- The character at the front of a non-empty byte sequence and the number of
bytes it takes. Overlong forms, surrogates and values above the last code point
are no characters: there the first byte alone reads as the replacement. -/
def decodeFirst (b : UInt8) (rest : List UInt8) : Char × Nat :=
  let n := b.toNat
  if n < 0x80 then (Char.ofNat n, 1)
  else if 0xC2 ≤ n && n ≤ 0xDF then
    match rest with
    | b1 :: _ =>
      if isContinuation b1 then (Char.ofNat ((n % 32) * 64 + payload b1), 2) else (replacement, 1)
    | _ => (replacement, 1)
  else if 0xE0 ≤ n && n ≤ 0xEF then
    match rest with
    | b1 :: b2 :: _ =>
      let lo : UInt8 := if n == 0xE0 then 0xA0 else 0x80
      let hi : UInt8 := if n == 0xED then 0x9F else 0xBF
      if lo ≤ b1 && b1 ≤ hi && isContinuation b2 then
        (Char.ofNat (((n % 16) * 64 + payload b1) * 64 + payload b2), 3)
      else (replacement, 1)
    | _ => (replacement, 1)
  else if 0xF0 ≤ n && n ≤ 0xF4 then
    match rest with
    | b1 :: b2 :: b3 :: _ =>
      let lo : UInt8 := if n == 0xF0 then 0x90 else 0x80
      let hi : UInt8 := if n == 0xF4 then 0x8F else 0xBF
      if lo ≤ b1 && b1 ≤ hi && isContinuation b2 && isContinuation b3 then
        (Char.ofNat ((((n % 8) * 64 + payload b1) * 64 + payload b2) * 64 + payload b3), 4)
      else (replacement, 1)
    | _ => (replacement, 1)
  else (replacement, 1)

/-- Decodes a byte sequence; `skip` counts the bytes of the last character that
are still to be passed over. -/
def decodeAux : Nat → List UInt8 → List Char
  | _, [] => []
  | skip + 1, _ :: rest => decodeAux skip rest
  | 0, b :: rest =>
    let (c, size) := decodeFirst b rest
    c :: decodeAux (size - 1) rest

def decode (bytes : List UInt8) : String := String.ofList (decodeAux 0 bytes)

/-- The characters of a source, without one byte order mark in front. -/
def codePoints (source : String) : List Char :=
  match source.toList with
  | c :: cs => if c = byteOrderMark then cs else c :: cs
  | [] => []

def hexDigit? (c : Char) : Option Nat :=
  if '0' ≤ c && c ≤ '9' then some (c.toNat - '0'.toNat)
  else if 'a' ≤ c && c ≤ 'f' then some (c.toNat - 'a'.toNat + 10)
  else if 'A' ≤ c && c ≤ 'F' then some (c.toNat - 'A'.toNat + 10)
  else none

/-- The bytes written as pairs of hexadecimal digits. -/
def ofHex? : List Char → Option (List UInt8)
  | [] => some []
  | a :: b :: rest => do
    let hi ← hexDigit? a
    let lo ← hexDigit? b
    let bytes ← ofHex? rest
    return UInt8.ofNat (hi * 16 + lo) :: bytes
  | _ => none

end Text
end ClientGen
