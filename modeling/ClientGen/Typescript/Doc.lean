import ClientGen.Document.Basic

/-! # Documentation comments

Comments of declarations, cleaned of their decoration, and the documentation
blocks that generated code shows them in.
-/

namespace ClientGen

def trimEmpty (lines : List String) : List String :=
  Text.dropTrailing (· == "") (lines.dropWhile (· == ""))

/-- A line of a comment without the stars in front of it and the blanks around. -/
def cleanLine (l : String) : String :=
  Text.trim (Text.trimStartBy (· == '*') (Text.trim l))

/-- The text of a comment with every line cleaned and no empty lines around. -/
def cleanText (text : String) : String :=
  "\n".intercalate (trimEmpty ((Text.split (Text.replace text "\r\n" "\n") "\n").map cleanLine))

def Comment.clean (c : Comment) : Comment :=
  if c.values.isEmpty then { form := c.form, value := cleanText c.value }
  else { form := c.form, values := c.values.map cleanText }

/-- The lines of some comments, without the blanks around each and without empty
lines around all. -/
def commentLines (cs : List Comment) : List String :=
  trimEmpty ((cs.flatMap Comment.lines).map Text.trim)

namespace Typescript

/-- One line of a documentation block; what would end the block is broken up. -/
def docLine (indent l : String) : String :=
  if l = "" then indent ++ " *\n"
  else indent ++ " * " ++ Text.replace l "*/" "*\\/" ++ "\n"

def doc (indent : String) (lines : List String) : String :=
  if lines.isEmpty then ""
  else indent ++ "/**\n" ++ String.join (lines.map (docLine indent)) ++ indent ++ " */\n"

end Typescript
end ClientGen
