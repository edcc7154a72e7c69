import ClientGen.Collection.Table
import ClientGen.Json.Basic

/-! # The mock switchboard

A local file that lists the methods that can be mocked and those that are. When
code is generated anew the list of methods is replaced, and of the choices those
stay whose method still exists.
-/

namespace ClientGen
namespace Mock

structure Switchboard where
  methods : List String := []
  enabled : List String := []
deriving DecidableEq, Repr, Inhabited

namespace Switchboard

/-- The switchboard for some methods, with the choices of a prior one that still
name a method. -/
def merge (prior : Option Switchboard) (methods : List String) : Switchboard :=
  let enabled := (prior.map (·.enabled)).getD []
  { methods := sortDistinct methods, enabled := sortDistinct (enabled.filter methods.contains) }

def namesJson (names : List String) : Json := .array (names.map .string)

/-- The switchboard as JSON; no methods at all are written as null. -/
def toJson (s : Switchboard) : Json :=
  .object [("methods", if s.methods.isEmpty then .null else namesJson s.methods),
    ("enabled", namesJson s.enabled)]

def render (s : Switchboard) : String := (s.toJson.layout .escaped).indented "" "  " ++ "\n"

end Switchboard

inductive Prior where
  | absent
  /-- There is a file, but it cannot be read as a switchboard. -/
  | unreadable
  | known (s : Switchboard)
deriving DecidableEq, Repr, Inhabited

def Prior.switchboard? : Prior → Option Switchboard
  | known s => some s
  | _ => none

end Mock
end ClientGen
