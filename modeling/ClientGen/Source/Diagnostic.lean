import ClientGen.Source.Position

/-! # Diagnostics

A diagnostic is a coded message about a place in a source. A reporter collects
diagnostics and says which of them are fatal: those whose code it does not list
as harmless.
-/

namespace ClientGen
namespace Source

abbrev Code := String

namespace Code

def unknownFatal : Code := "I0000"
def fileNotFound : Code := "I0001"
def unsupportedOperation : Code := "I0002"
def permissionDenied : Code := "I0003"
def unsupportedFormat : Code := "I0004"
def unexpectedEnd : Code := "I0005"
def illegalToken : Code := "I0006"
def invalidNumber : Code := "I0007"
def unknownType : Code := "I0008"
def config : Code := "I0009"
def plugin : Code := "I0010"
def unresolvedInclude : Code := "I0011"
def unresolvedType : Code := "I0012"
def descriptorFailed : Code := "I0013"

/-- Codes that never stop a run: what they are about is rendered untyped. -/
def harmless : List Code := [unresolvedInclude, unresolvedType]

end Code

/-- A coded message about a place. -/
structure Diagnostic where
  location : Location := {}
  code : Code
  message : String
deriving DecidableEq, Repr, Inhabited

namespace Diagnostic

/-- The diagnostic on one line: code, message and place. -/
def text (d : Diagnostic) : String :=
  d.code ++ ": " ++ d.message ++ "(" ++ d.location.text ++ ")"

def illegalToken (uri : String) (position : Position) (value : String) : Diagnostic :=
  { location := { uri, position }, code := Code.illegalToken,
    message := "illegal token '" ++ value ++ "'" }

def fileNotFound (path : String) : Diagnostic :=
  { location := { uri := path }, code := Code.fileNotFound, message := "no such file: " ++ path }

def unknownType (location : Location) (name : String) : Diagnostic :=
  { location, code := Code.unknownType, message := "UnKnown type: " ++ name }

def textAll (ds : List Diagnostic) : String := "; ".intercalate (ds.map text)

end Diagnostic

/-- The diagnostics of a run, in the order in which they were reported, and the
codes that are not fatal. -/
structure Reporter where
  nonfatal : List Code := Code.harmless
  reported : List Diagnostic := []
deriving Repr, Inhabited

namespace Reporter

def withHarmless (codes : List Code) : Reporter := { nonfatal := Code.harmless ++ codes }

def isFatal (r : Reporter) (d : Diagnostic) : Bool := !r.nonfatal.contains d.code

def report (r : Reporter) (d : Diagnostic) : Reporter := { r with reported := r.reported ++ [d] }

def fatal (r : Reporter) : List Diagnostic := r.reported.filter r.isFatal

@[simp] theorem nonfatal_report (r : Reporter) (d : Diagnostic) :
    (r.report d).nonfatal = r.nonfatal := rfl

@[simp] theorem reported_report (r : Reporter) (d : Diagnostic) :
    (r.report d).reported = r.reported ++ [d] := rfl

theorem fatal_report (r : Reporter) (d : Diagnostic) :
    (r.report d).fatal = r.fatal ++ if r.isFatal d then [d] else [] := by
  have h : (r.report d).isFatal = r.isFatal := rfl
  unfold fatal
  rw [h, reported_report, List.filter_append]
  cases hd : r.isFatal d <;> simp [hd]

end Reporter

end Source
end ClientGen
