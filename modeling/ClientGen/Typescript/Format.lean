import ClientGen.Files.Path

/-! # Formatting of generated files

Line ends are unified, trailing blanks and repeated empty lines dropped, and a
banner is put in front of script files.
-/

namespace ClientGen
namespace Typescript

/-- Shortens every run of more than two line breaks to two. `run` counts the
breaks met in a row. -/
def squeezeBreaks (run : Nat) : List Char → List Char
  | [] => []
  | c :: cs =>
    if c = '\n' then
      if run < 2 then c :: squeezeBreaks (run + 1) cs else squeezeBreaks run cs
    else c :: squeezeBreaks 0 cs

/-- A text with its blanks and breaks tidied, without breaks at its ends. -/
def tidy (content : String) : String :=
  let lines := Text.split (Text.replace content "\r\n" "\n") "\n"
  let trimmed := lines.map (Text.trimEndBy fun c => c == ' ' || c == '\t')
  let body := Text.trimBy (· == '\n') ("\n".intercalate trimmed)
  String.ofList (squeezeBreaks 0 body.toList)

/-- A tidied text behind a banner, unless it already starts with it. -/
def withBanner (banner content : String) : String :=
  let banner := tidy banner
  if Text.startsWith content banner then content else banner ++ "\n\n" ++ content

def format (filename content banner : String) : String :=
  let content := tidy content
  let content :=
    if banner ≠ "" ∧ Path.ext filename = ".ts" then withBanner banner content else content
  if content = "" then "" else content ++ "\n"

end Typescript
end ClientGen
