import ClientGen.Cli.Command
import ClientGen.Cli.Flag
import ClientGen.Cli.Run
import ClientGen.Collection.Table
import ClientGen.Config.Layers
import ClientGen.Config.Project
import ClientGen.Config.Setting
import ClientGen.Config.Switchboard
import ClientGen.Descriptor.Basic
import ClientGen.Descriptor.Compile
import ClientGen.Descriptor.Grammar
import ClientGen.Descriptor.Link
import ClientGen.Descriptor.Names
import ClientGen.Descriptor.Options
import ClientGen.Descriptor.Outline
import ClientGen.Descriptor.Rules
import ClientGen.Descriptor.Spelling
import ClientGen.Descriptor.Standard
import ClientGen.Descriptor.Syntax
import ClientGen.Descriptor.Token
import ClientGen.Descriptor.Wire
import ClientGen.Document.Basic
import ClientGen.Document.Comment
import ClientGen.Document.Literal
import ClientGen.Document.Route
import ClientGen.Document.Symbols
import ClientGen.Document.View
import ClientGen.Document.Walk
import ClientGen.Dotenv.Lines
import ClientGen.Dotenv.Load
import ClientGen.Dotenv.Reader
import ClientGen.Files.Basic
import ClientGen.Files.Disk
import ClientGen.Files.Glob
import ClientGen.Files.Memory
import ClientGen.Files.Path
import ClientGen.Files.Roots
import ClientGen.Files.Url
import ClientGen.Files.Tree
import ClientGen.Generate.Basic
import ClientGen.Generate.Entries
import ClientGen.Generate.Mocks
import ClientGen.Generate.Project
import ClientGen.Generate.Schema
import ClientGen.Generate.Types
import ClientGen.Json.Basic
import ClientGen.Json.Fault
import ClientGen.Json.Reader
import ClientGen.Load.Check
import ClientGen.Load.Closure
import ClientGen.Load.Compile
import ClientGen.Load.Describe
import ClientGen.Main
import ClientGen.Mock.Sample
import ClientGen.Mock.Switchboard
import ClientGen.Number.Calendar
import ClientGen.Number.Decimal
import ClientGen.Number.Integer
import ClientGen.Number.Shortest
import ClientGen.Pipeline.Hook
import ClientGen.Pipeline.Run
import ClientGen.Pipeline.Stage
import ClientGen.Plugin.Methods
import ClientGen.Plugin.Mocks
import ClientGen.Plugin.Rewriting
import ClientGen.Proofs.Collection.Table
import ClientGen.Proofs.Document.Erasure
import ClientGen.Proofs.Document.Literal
import ClientGen.Proofs.Load.Cache
import ClientGen.Proofs.Load.Closure
import ClientGen.Proofs.Load.Comments
import ClientGen.Proofs.Load.Declarations
import ClientGen.Proofs.Load.History
import ClientGen.Proofs.Load.Parsing
import ClientGen.Proofs.Load.Walk
import ClientGen.Proofs.Proto.DottedOptions
import ClientGen.Proofs.Proto.Flattening
import ClientGen.Proofs.Proto.Lockstep
import ClientGen.Proofs.Proto.Lowering
import ClientGen.Proofs.Proto.NamespaceTree
import ClientGen.Proofs.Proto.Nesting
import ClientGen.Proofs.Proto.OptionReading
import ClientGen.Proofs.Proto.OptionSpelling
import ClientGen.Proofs.Proto.Reading
import ClientGen.Proofs.Proto.RoundTrip
import ClientGen.Proofs.Proto.Scoping
import ClientGen.Proofs.Proto.Spelling
import ClientGen.Proofs.Source.Coverage
import ClientGen.Proofs.Source.Lockstep
import ClientGen.Proofs.Source.Moves
import ClientGen.Proofs.Source.Nesting
import ClientGen.Proofs.Source.Positions
import ClientGen.Proofs.Source.Reading
import ClientGen.Proofs.Source.Session
import ClientGen.Proofs.Source.Spelling
import ClientGen.Proofs.Thrift.Lockstep
import ClientGen.Proofs.Thrift.Lowering
import ClientGen.Proofs.Thrift.Nesting
import ClientGen.Proofs.Thrift.RoundTrip
import ClientGen.Proofs.Thrift.Spelling
import ClientGen.Proto.Document
import ClientGen.Proto.Parser
import ClientGen.Proto.Tree
import ClientGen.Source.Cursor
import ClientGen.Source.Diagnostic
import ClientGen.Source.Failure
import ClientGen.Source.Lexer
import ClientGen.Source.Lookahead
import ClientGen.Source.Position
import ClientGen.Source.Token
import ClientGen.Yaml.Scalar
import ClientGen.Text.Basic
import ClientGen.Text.Casing
import ClientGen.Text.Letter
import ClientGen.Text.LetterCase
import ClientGen.Text.Printable
import ClientGen.Text.Quoted
import ClientGen.Text.Utf8
import ClientGen.Thrift.Document
import ClientGen.Thrift.Parser
import ClientGen.Thrift.Tree
import ClientGen.Toml.Quoted
import ClientGen.Toml.Reader
import ClientGen.Toml.Scalar
import ClientGen.Toml.Seen
import ClientGen.Typescript.Declaration
import ClientGen.Typescript.Doc
import ClientGen.Typescript.Format
import ClientGen.Typescript.Method
import ClientGen.Typescript.TypeName
import ClientGen.Value.Basic
import ClientGen.Yaml.Folding
import ClientGen.Yaml.Lexer
import ClientGen.Yaml.Node
import ClientGen.Yaml.Reader
import ClientGen.Yaml.Tail
import ClientGen.Yaml.Timestamp
import ClientGen.Yaml.Writer
import ClientGen.Proofs.Files.Path
import ClientGen.Proofs.Load.Resolution
import ClientGen.Proofs.Plugin.Placeholders
import ClientGen.Proofs.Generate.Modules
import ClientGen.Proofs.Load.Names
import ClientGen.Proofs.Generate.Layout
import ClientGen.Proofs.Generate.Scope
import ClientGen.Proofs.Generate.References
import ClientGen.Proofs.Pipeline.Scheduling
import ClientGen.Proofs.Plugin.Rewriting
import ClientGen.Proofs.Generate.Writing
import ClientGen.Proofs.Load.Dialect
import ClientGen.Proofs.Document.Symbols
import ClientGen.Proofs.Document.Aliases
import ClientGen.Proofs.Document.Packages
import ClientGen.Proofs.Document.Qualifiers
import ClientGen.Proofs.Number.Finite
import ClientGen.Proofs.Value.Encoding
import ClientGen.Proofs.Load.Contents
import ClientGen.Proofs.Plugin.Cleaning
import ClientGen.Proofs.Plugin.Methods
import ClientGen.Proofs.Generate.Rendering
import ClientGen.Proofs.Generate.Samples
import ClientGen.Proofs.Text.Lines
import ClientGen.Proofs.Typescript.Tidying
import ClientGen.Proofs.Typescript.Format
import ClientGen.Proofs.Document.Route
import ClientGen.Proofs.Generate.Sampling
import ClientGen.Proofs.Generate.Depth
import ClientGen.Proofs.Generate.Termination
import ClientGen.Proofs.Load.Mentions
import ClientGen.Proofs.Load.Absence
import ClientGen.Proofs.Mock.Sample
import ClientGen.Proofs.Generate.Declarations
import ClientGen.Proofs.Typescript.Imports
import ClientGen.Proofs.Typescript.Parameters
import ClientGen.Proofs.Typescript.Doc
import ClientGen.Proofs.Typescript.Bindings
import ClientGen.Proofs.Generate.Specifiers
import ClientGen.Proofs.Files.Climbing
import ClientGen.Proofs.Files.Disk
import ClientGen.Proofs.Generate.Entries
import ClientGen.Proofs.Json.Reading
import ClientGen.Proofs.Mock.Switchboard
import ClientGen.Proofs.Plugin.Switches
import ClientGen.Proofs.Source.Lookahead
import ClientGen.Proofs.Collection.PostOrder
import ClientGen.Proofs.Load.Descriptors
import ClientGen.Proofs.Number.Spelling
import ClientGen.Proofs.Source.Refusing
import ClientGen.Proofs.Document.Numerals
import ClientGen.Proofs.Load.Surroundings
import ClientGen.Proofs.Load.EnumValues
import ClientGen.Proofs.Source.Integers
import ClientGen.Proofs.Generate.Constants
import ClientGen.Proofs.Source.Floats
