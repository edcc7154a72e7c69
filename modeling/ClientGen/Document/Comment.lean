import ClientGen.Source.Cursor

/-! # Comments of declarations

Comments are set aside while a source is parsed and given to the declarations
afterwards. Comments on consecutive lines with nothing between them form a run.
A run that starts on the line where a declaration ends trails it; every other
run leads the declaration after it.
-/

namespace ClientGen

/-- The forms of comments: the two that sources are written in, and others of
documents that come from elsewhere. -/
inductive CommentForm where
  | line | block
  | other (name : String)
deriving DecidableEq, Repr, Inhabited

namespace CommentForm

def name : CommentForm → String
  | line => "line"
  | block => "block"
  | other n => n

def ofName : String → CommentForm
  | "line" => line
  | "block" => block
  | n => other n

end CommentForm

/-- A comment of a declaration: one comment in `value`, or a run of several in
`values`, one for each comment of the source. -/
structure Comment where
  form : CommentForm
  value : String := ""
  values : List String := []
deriving DecidableEq, Repr, Inhabited

namespace Comment

def lines (c : Comment) : List String :=
  if c.values.isEmpty then Text.split c.value "\n"
  else c.values.flatMap fun v => Text.split v "\n"

end Comment

namespace Source

/-- Adjacent comments that belong together: their tokens, the number of
significant tokens before them, and whether they trail a declaration. -/
structure CommentRun where
  tokens : List Token
  before : Nat
  trailing : Bool
deriving Repr, Inhabited

namespace CommentRun

/-- A run as the comment of a declaration. It counts as a block when one of its
comments is one. -/
def comment (r : CommentRun) : Comment :=
  let form := if r.tokens.any fun t => t.kind == .commentBlock then .block else .line
  match r.tokens with
  | [t] => { form, value := t.value }
  | ts => { form, values := ts.map (·.value) }

/-- Whether a comment continues a run: neither trails, the same tokens stand
before both, and the comment starts at most one line after the run ends. -/
def continues (r : CommentRun) (c : SetAside) : Bool :=
  !c.trailing && !r.trailing && r.before == c.before &&
    match r.tokens.getLast? with
    | some t => c.token.span.first.line - t.span.last.line ≤ 1
    | none => false

/-- The runs of a list of comments; `open?` is the run that may still grow. -/
def groupAux : Option CommentRun → List SetAside → List CommentRun
  | open?, [] => open?.toList
  | none, c :: cs => groupAux (some ⟨[c.token], c.before, c.trailing⟩) cs
  | some r, c :: cs =>
    if r.continues c then groupAux (some { r with tokens := r.tokens ++ [c.token] }) cs
    else r :: groupAux (some ⟨[c.token], c.before, c.trailing⟩) cs

def group (cs : List SetAside) : List CommentRun := groupAux none cs

end CommentRun

/-- The declaration that ends before a place. The innermost one is registered
first. -/
def declEndingBefore (decls : List Decl) (before : Nat) : Option Nat :=
  if before = 0 then none else decls.findIdx? fun d => d.stop == before

/-- The declaration whose first token is at place `i`. The outermost one is
registered last. -/
def declStartingAt (decls : List Decl) (i : Nat) : Option Nat :=
  (decls.reverse.findIdx? fun d => d.first == some i).map fun k => decls.length - 1 - k

/-- The declaration that a run belongs to. A trailing run goes to the one that
it trails when `revise` is set; otherwise a run leads the next declaration, and
failing that stays with the one that ends before it. -/
def CommentRun.target (r : CommentRun) (decls : List Decl) (revise : Bool) : Option Nat :=
  let ending := declEndingBefore decls r.before
  let starting := declStartingAt decls r.before
  if r.trailing && revise then ending <|> starting else starting <|> ending

/-- The comments that go to declarations, each with the number of its
declaration, in source order. -/
def attachments (c : Cursor) (revise : Bool) : List (Nat × Comment) :=
  (CommentRun.group c.comments).filterMap fun r =>
    (r.target c.decls revise).map fun decl => (decl, r.comment)

def attached (all : List (Nat × Comment)) (decl : Nat) : List Comment :=
  all.filterMap fun (d, c) => if d = decl then some c else none

end Source
end ClientGen
