import ClientGen.Files.Basic
import ClientGen.Proto.Document
import ClientGen.Thrift.Document

/-! # From a file to its document

The kind of a file chooses the language. A file of no known kind, or a bare
text, is Protobuf when a word of that language comes before any word of Thrift.
-/

namespace ClientGen
namespace Load

open Source (Reporter Failure Code Diagnostic)
open Files (SourceFile Kind)

/-- Words that tell Protobuf. `extend`, `extensions` and `reserved` are not listed, though
they mean nothing in Thrift either. -/
def protobufWords : List String :=
  ["syntax", "edition", "package", "import", "message", "option", "rpc", "oneof"]

/-- Words that tell Thrift. `extends` is not listed. -/
def thriftWords : List String :=
  ["namespace", "include", "cpp_include", "struct", "union", "exception", "typedef", "const",
    "oneway", "throws"]

def dialectOfWord? (t : Source.Token) : Option Dialect :=
  if t.kind != .identifier then none
  else if protobufWords.contains t.value then some .protobuf
  else if thriftWords.contains t.value then some .thrift
  else none

/-- The language of a text: the one of its first telling word, else Thrift. -/
def sniff (text : String) : Dialect :=
  let (tokens, _) := Source.Lexer.run { hashComments := true } (Text.codePoints text)
  (tokens.findSome? dialectOfWord?).getD .thrift

def parseText (dialect : Dialect) (path text : String) (revise : Bool) (r : Reporter) :
    Except Failure Document × Reporter :=
  match dialect with
  | .thrift => Thrift.parse path text revise r
  | .protobuf => Proto.parse path text revise r

def causeText : Failure → String
  | .diagnostic d => d.message
  | f => f.message

def wrapUnknown (uri : String) (f : Failure) : Diagnostic :=
  { location := { uri }, code := Code.unknownFatal, message := causeText f }

/-- Parses a file in a language. A file that cannot be read to its end has been
lexed as far as it goes, but has no document. -/
def parseFile (dialect : Dialect) (f : SourceFile) (revise : Bool) (r : Reporter) :
    Except Failure Document × Reporter :=
  match f.body with
  | .text s => parseText dialect f.path s revise r
  | .unopened e => (.error e, r)
  | .interrupted s e =>
    let (_, r) := Source.Lexer.lex { hashComments := dialect == .thrift } f.path s r
    (.error (.diagnostic (wrapUnknown f.path e)), r)

def reportOnly (d : Diagnostic) (r : Reporter) : Except Failure (Option Document) × Reporter :=
  (if r.isFatal d then .error (.diagnostic d) else .ok none, r.report d)

/-- The document of a file. There is none, and no failure either, when the only
diagnostic about the file is not fatal. -/
def compileFile (f : SourceFile) (revise : Bool) (r : Reporter) :
    Except Failure (Option Document) × Reporter :=
  let found (x : Except Failure Document × Reporter) : Except Failure (Option Document) × Reporter :=
    (x.1.map some, x.2)
  match f.kind with
  | .thrift => found (parseFile .thrift f revise r)
  | .protobuf => found (parseFile .protobuf f revise r)
  | .descriptor =>
    reportOnly { location := { uri := f.path }, code := Code.unsupportedFormat,
                 message := "unsupported file format" } r
  | .none =>
    match f.read with
    | .ok s => found (parseText (sniff s) f.path s revise r)
    | .error e => reportOnly (wrapUnknown f.path e) r

/-- Whether a text is meant as the path of an interface file. -/
def isPath (source : String) : Bool :=
  !(source.toList.any fun c => c == '\n' || c == '\x7b') &&
    Kind.ofPath (Text.trim source) != .none

/-- The document of a text, or of the file that it names. `disk` opens rooted
paths and `directory` is the one that relative paths start from. -/
def compileSource (disk : Files.System) (directory source : String) (revise : Bool) (r : Reporter) :
    Except Failure (Option Document) × Reporter :=
  if isPath source then
    let path := if Path.isRooted source then Path.clean source else Path.join [directory, source]
    match disk.openAt path with
    | .ok (f :: _) => compileFile f revise r
    | _ => (.error (.diagnostic (.fileNotFound source)), r)
  else compileFile (.ofText "source" source .none) revise r

end Load
end ClientGen
