import ClientGen.Config.Layers
import ClientGen.Json.Reader
import ClientGen.Mock.Switchboard

/-! # Reading the mock switchboard

The switchboard file is JSON, read as generously as the project configuration.
-/

namespace ClientGen
namespace Config

open Mock (Switchboard Prior)

inductive Trouble where
  /-- The file is absent, malformed or of an unknown format. -/
  | unreadable
  /-- A setting is of the wrong kind. -/
  | undecodable
  /-- A setting is unusable. -/
  | invalid (message : String) (hints : List String)
deriving DecidableEq, Repr, Inhabited

/-- The settings of a JSON text, which has to be an object or null. -/
def jsonSettings? (content : String) : Option (List (String × Setting)) := do
  match ← Setting.ofJson? (← Json.read? content) with
  | .map entries => return entries
  | .null => return []
  | _ => none

/-- The value of a setting. A key that differs in case, as far as the case of
letters has been kept, stands in for a key that is absent. -/
def setting (entries : List (String × Setting)) (key : String) : Setting :=
  let folded := entries.reverse.find? fun (k, _) => Text.sameButCase k key
  (valueAt? entries key <|> folded.map (·.2)).getD .null

def readSwitchboard (content : Option String) : Except Trouble Switchboard :=
  match content.bind jsonSettings? with
  | none => .error .unreadable
  | some entries =>
    let settings := ({ file := Setting.lowerEntries entries } : Layers).settings
    match (setting settings "methods").asTexts?, (setting settings "enabled").asTexts? with
    | some methods, some enabled => .ok { methods, enabled }
    | _, _ => .error .undecodable

def prior (content : Option String) : Prior :=
  match content, readSwitchboard content with
  | none, _ => .absent
  | some _, .ok board => .known board
  | some _, .error _ => .unreadable

end Config
end ClientGen
