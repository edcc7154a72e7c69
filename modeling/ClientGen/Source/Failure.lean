import ClientGen.Source.Diagnostic

/-! # Failures

Why an operation gave no result. A failure keeps its cause, so that the code of
a diagnostic can still be read off under the context that callers add.
-/

namespace ClientGen
namespace Source

/-- Why an operation gave no result. -/
inductive Failure where
  /-- A diagnostic that was fatal. -/
  | diagnostic (d : Diagnostic)
  /-- Another cause, in words. -/
  | plain (message : String)
  /-- A failure inside the part of the work named by the label. -/
  | context (label : String) (cause : Failure)
  /-- A value that has no JSON form: an infinity or not a number. -/
  | unencodable
  /-- A hook handler that was written for another context. -/
  | foreignHandler
  /-- A document that should be there is absent. -/
  | absentDocument
  /-- Work without an end, for which no stack is deep enough. -/
  | overflow
deriving Repr, Inhabited

namespace Failure

/-- The words shown for a failure, outermost context first. -/
def message : Failure → String
  | diagnostic d => d.text
  | plain m => m
  | context label cause => label ++ ": " ++ cause.message
  | unencodable => "value has no JSON form"
  | foreignHandler => "handler of another context"
  | absentDocument => "absent document"
  | overflow => "stack overflow"

def root : Failure → Failure
  | context _ cause => cause.root
  | f => f

def code? (f : Failure) : Option Code :=
  match f.root with
  | diagnostic d => some d.code
  | _ => none

/-- Names the part of the work in which a result failed. -/
def within {α : Type} (label : String) : Except Failure α → Except Failure α
  | .ok a => .ok a
  | .error f => .error (.context label f)

end Failure

end Source
end ClientGen
