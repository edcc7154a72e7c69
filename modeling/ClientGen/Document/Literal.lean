import ClientGen.Document.Basic
import ClientGen.Number.Integer

/-! # Names and numbers in the grammars

The productions that both interface languages share: names joined by dots, whole
numbers, and the constants that number tokens stand for.
-/

namespace ClientGen
namespace Source
namespace Parser

def dottedName : Parser String := do
  let names ← sepBy1 .dot identifier
  return ".".intercalate (names.map (·.value))

/-- A whole number with an optional minus sign. -/
def integer : Parser Int := do
  let negative ← accept .minus
  let t ← expectOf [.integerDecimal, .integerHex]
  match Number.int64? t.value with
  | some n => return if negative then -n else n
  | none =>
    change fun c => c.reportHere Code.invalidNumber ("invalid integer " ++ t.value)
    giveUp

end Parser
end Source

def Const.ofNumber (sign : String) (t : Source.Token) : Const :=
  .scalar (if t.kind = .floatDecimal then .double else .int) (sign ++ t.value)

end ClientGen
