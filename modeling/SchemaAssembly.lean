import SchemaAssembly.Argument.Mapper
import SchemaAssembly.Argument.Resolver
import SchemaAssembly.Argument.Spelling
import SchemaAssembly.Assembly.Assembler
import SchemaAssembly.Assembly.Binding
import SchemaAssembly.Assembly.Component
import SchemaAssembly.Assembly.Host
import SchemaAssembly.Assembly.Snapshot
import SchemaAssembly.CommandLine.Arguments
import SchemaAssembly.CommandLine.Run
import SchemaAssembly.Config.Settings
import SchemaAssembly.Coordinates
import SchemaAssembly.Entries
import SchemaAssembly.Error.Configuration
import SchemaAssembly.Error.Kind
import SchemaAssembly.Error.Resolution
import SchemaAssembly.Error.Response
import SchemaAssembly.Federation.Entity
import SchemaAssembly.Federation.Types
import SchemaAssembly.Fetcher.Basic
import SchemaAssembly.Fetcher.Failure
import SchemaAssembly.Files.Glob
import SchemaAssembly.Files.Path
import SchemaAssembly.Files.Tree
import SchemaAssembly.Handler.Error
import SchemaAssembly.Handler.Method
import SchemaAssembly.Json.Decode
import SchemaAssembly.Json.Reader
import SchemaAssembly.Json.Text
import SchemaAssembly.Json.Value
import SchemaAssembly.Loader.Clock
import SchemaAssembly.Loader.Definition
import SchemaAssembly.Loader.Error
import SchemaAssembly.Loader.Session
import SchemaAssembly.Loader.State
import SchemaAssembly.Loader.Work
import SchemaAssembly.Main
import SchemaAssembly.Number.Binary64
import SchemaAssembly.Number.Decimal
import SchemaAssembly.Number.Literal
import SchemaAssembly.Pattern.Basic
import SchemaAssembly.Pattern.CharSet
import SchemaAssembly.Pattern.Engine
import SchemaAssembly.Pattern.Property
import SchemaAssembly.Pattern.Reader
import SchemaAssembly.Report.Failure
import SchemaAssembly.Report.Summary
import SchemaAssembly.Request.Context
import SchemaAssembly.Request.Environment
import SchemaAssembly.Scalar.Coercing
import SchemaAssembly.Scalar.Temporal
import SchemaAssembly.Schema.Definition
import SchemaAssembly.Schema.Description
import SchemaAssembly.Schema.Registry
import SchemaAssembly.Schema.TypeRef
import SchemaAssembly.Sdl.Fragment
import SchemaAssembly.Sdl.Grammar
import SchemaAssembly.Sdl.Lexeme
import SchemaAssembly.Sdl.Load
import SchemaAssembly.Sdl.Reader
import SchemaAssembly.Text.Blank
import SchemaAssembly.Text.Category
import SchemaAssembly.Text.LetterCase
import SchemaAssembly.Text.Literal
import SchemaAssembly.Text.SimpleName
import SchemaAssembly.Toml.Reader
import SchemaAssembly.Toml.Table
import SchemaAssembly.Url.Host
import SchemaAssembly.Url.Parse
import SchemaAssembly.Validation.Rule
import SchemaAssembly.Wiring.CodeRegistry
import SchemaAssembly.Wiring.Directive
import SchemaAssembly.Wiring.Runtime
import SchemaAssembly.Wiring.Schema
import SchemaAssembly.Wiring.TypeResolver
import SchemaAssembly.Proofs.Number.Shortest
import SchemaAssembly.Proofs.Number.NumeralText
import SchemaAssembly.Proofs.Json.TextInjective
import SchemaAssembly.Proofs.Loader.Steps
import SchemaAssembly.Proofs.Loader.Invariant
import SchemaAssembly.Proofs.Loader.Waiters
import SchemaAssembly.Proofs.Loader.Freshness
import SchemaAssembly.Proofs.Loader.Computing
import SchemaAssembly.Proofs.Loader.Sessions
import SchemaAssembly.Proofs.Loader.Waiting
import SchemaAssembly.Proofs.Loader.Clients
import SchemaAssembly.Proofs.Loader.Chunks
import SchemaAssembly.Proofs.Loader.Dispatching
import SchemaAssembly.Proofs.Loader.Fetching
import SchemaAssembly.Proofs.Loader.Priming
import SchemaAssembly.Proofs.Loader.SideBySide
import SchemaAssembly.Proofs.Loader.Mapped
import SchemaAssembly.Proofs.Coordinates.Ordered
import SchemaAssembly.Proofs.Wiring.Fetchers
import SchemaAssembly.Proofs.Wiring.Calls
import SchemaAssembly.Proofs.Schema.PossibleTypes
import SchemaAssembly.Proofs.Schema.Extension
import SchemaAssembly.Proofs.Schema.Merging
import SchemaAssembly.Proofs.Schema.FragmentOrder
import SchemaAssembly.Proofs.Schema.StagedMerge
import SchemaAssembly.Proofs.Schema.Roots
import SchemaAssembly.Proofs.Sdl.Reading
import SchemaAssembly.Proofs.Sdl.Names
import SchemaAssembly.Proofs.Sdl.Lines
import SchemaAssembly.Proofs.Sdl.LineEnds
import SchemaAssembly.Proofs.Sdl.NumberEnds
import SchemaAssembly.Proofs.Sdl.GoingOn
import SchemaAssembly.Proofs.Sdl.PartsGoOn
import SchemaAssembly.Proofs.Federation.SdlText
import SchemaAssembly.Proofs.Federation.EntityOrder
import SchemaAssembly.Proofs.Federation.EntityResults
import SchemaAssembly.Proofs.Assembly.BindingExact
import SchemaAssembly.Proofs.Assembly.Registering
import SchemaAssembly.Proofs.Assembly.BindingOrder
import SchemaAssembly.Proofs.Assembly.Failures
import SchemaAssembly.Proofs.Assembly.DiscoveryOrder
import SchemaAssembly.Proofs.Assembly.Stages
import SchemaAssembly.Proofs.Assembly.FieldFetchers
import SchemaAssembly.Proofs.Assembly.IdleWirings
import SchemaAssembly.Proofs.Assembly.ParsedTypes
import SchemaAssembly.Proofs.Assembly.Publishing
import SchemaAssembly.Proofs.Federation.QueryText
import SchemaAssembly.Proofs.Federation.Additions
import SchemaAssembly.Proofs.Assembly.TypeResolution
import SchemaAssembly.Proofs.Assembly.FanOut
import SchemaAssembly.Proofs.Sdl.DefinitionsGoOn
import SchemaAssembly.Proofs.Sdl.RootsGoOn
import SchemaAssembly.Proofs.Schema.SameTypes
import SchemaAssembly.Proofs.Sdl.Joining
import SchemaAssembly.Proofs.Assembly.Reassembly
import SchemaAssembly.Proofs.Loader.Counters
import SchemaAssembly.Proofs.Loader.Turns
import SchemaAssembly.Proofs.Loader.Groups
import SchemaAssembly.Proofs.Loader.Slots
import SchemaAssembly.Proofs.Loader.KeysApart
import SchemaAssembly.Proofs.Argument.Respelling
import SchemaAssembly.Proofs.Argument.PropertySpelling
import SchemaAssembly.Proofs.Argument.Resolving
import SchemaAssembly.Proofs.Federation.Guards
import SchemaAssembly.Proofs.Federation.EntityTypes
import SchemaAssembly.Proofs.Assembly.SharedFetchers
import SchemaAssembly.Proofs.Schema.JoinedRegistries
import SchemaAssembly.Proofs.Schema.Cutting
import SchemaAssembly.Proofs.Number.IntegerRounding
import SchemaAssembly.Proofs.Validation.Ranges
import SchemaAssembly.Proofs.Pattern.Matching
import SchemaAssembly.Proofs.Pattern.Framing
import SchemaAssembly.Proofs.Pattern.FramedItems
import SchemaAssembly.Proofs.Pattern.Engines
import SchemaAssembly.Proofs.Validation.Gate
import SchemaAssembly.Proofs.Assembly.Instrumentation
import SchemaAssembly.Proofs.Schema.RegistryHistory
import SchemaAssembly.Proofs.Sdl.TypeReferences
import SchemaAssembly.Proofs.Schema.RegistryTables
import SchemaAssembly.Proofs.Scalar.NormalForm
import SchemaAssembly.Proofs.Scalar.TemporalText
