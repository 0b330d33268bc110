import Bindable.Analysis.Analyzer
import Bindable.Analysis.DefaultValue
import Bindable.Analysis.Platform
import Bindable.Analysis.Usage
import Bindable.Command.Arguments
import Bindable.Command.Run
import Bindable.Conversion
import Bindable.Diagnostic
import Bindable.Digest
import Bindable.Emission.Entry
import Bindable.Emission.Members
import Bindable.Files.Disk
import Bindable.Files.Store
import Bindable.Files.Tree
import Bindable.Generation
import Bindable.Json.Decode
import Bindable.Json.Reader
import Bindable.Json.Tree
import Bindable.Json.Writer
import Bindable.Main
import Bindable.Marker.Access
import Bindable.Marker.Arguments
import Bindable.Marker.Descriptor
import Bindable.Marker.Occurrence
import Bindable.Model.Attribute
import Bindable.Model.Constant
import Bindable.Model.Declaration
import Bindable.Model.Decode
import Bindable.Model.Encode
import Bindable.Model.Primitive
import Bindable.Model.Symbols
import Bindable.Model.TypeReference
import Bindable.Model.Walk
import Bindable.Numeric.Floating
import Bindable.Numeric.Reading
import Bindable.Numeric.Shortest
import Bindable.OutputCache
import Bindable.Proofs.Analysis.MissingDefault
import Bindable.Proofs.Analysis.Projection
import Bindable.Proofs.Analysis.SetterHandle
import Bindable.Proofs.Cache.CachedRun
import Bindable.Proofs.Cache.History
import Bindable.Proofs.Cache.Ledger
import Bindable.Proofs.Cache.Machine
import Bindable.Proofs.Cache.Manifest
import Bindable.Proofs.Cache.Operations
import Bindable.Proofs.Cache.Repetition
import Bindable.Proofs.Cache.Retry
import Bindable.Proofs.Cache.Settling
import Bindable.Proofs.Cache.Surroundings
import Bindable.Proofs.Cache.System
import Bindable.Proofs.Command.Repetition
import Bindable.Proofs.Command.Session
import Bindable.Proofs.Conversion.DefaultTexts
import Bindable.Proofs.Conversion.EnumDefault
import Bindable.Proofs.Conversion.Evaluation
import Bindable.Proofs.Conversion.ExactKind
import Bindable.Proofs.Conversion.RealLiterals
import Bindable.Proofs.Emission.BareUnit
import Bindable.Proofs.Emission.BindingMode
import Bindable.Proofs.Emission.FileLines
import Bindable.Proofs.Emission.Gathering
import Bindable.Proofs.Emission.HintName
import Bindable.Proofs.Emission.Identifiers
import Bindable.Proofs.Emission.LineStarts
import Bindable.Proofs.Emission.Markers
import Bindable.Proofs.Emission.MemberNames
import Bindable.Proofs.Emission.MemberTexts
import Bindable.Proofs.Emission.NameClashes
import Bindable.Proofs.Emission.Precedence
import Bindable.Proofs.Emission.RedundantLevel
import Bindable.Proofs.Emission.Sources
import Bindable.Proofs.Emission.ToolAttribute
import Bindable.Proofs.Emission.ToolLine
import Bindable.Proofs.Emission.Wiring
import Bindable.Proofs.Files.Creation
import Bindable.Proofs.Files.Destination
import Bindable.Proofs.Files.Directory
import Bindable.Proofs.Files.Path
import Bindable.Proofs.Generation.ArgumentOrder
import Bindable.Proofs.Generation.AttributeSwitch
import Bindable.Proofs.Generation.DefaultConflict
import Bindable.Proofs.Generation.Separation
import Bindable.Proofs.Json.Grammar
import Bindable.Proofs.Json.Lexemes
import Bindable.Proofs.Json.RoundTrip
import Bindable.Proofs.Marker.LastArguments
import Bindable.Proofs.Marker.Places
import Bindable.Proofs.Marker.Reading
import Bindable.Proofs.Marker.Reordering
import Bindable.Proofs.Marker.Settings
import Bindable.Proofs.Marker.Spelling
import Bindable.Proofs.Model.Lookup
import Bindable.Proofs.Model.RoundTrip
import Bindable.Proofs.Source.Braces
import Bindable.Proofs.Source.FlushRows
import Bindable.Proofs.Source.LiteralGrammar
import Bindable.Proofs.Source.LiteralText
import Bindable.Proofs.Source.OneLine
import Bindable.Proofs.Source.Printer
import Bindable.Proofs.Source.StepTexts
import Bindable.Proofs.Source.StringLiteral
import Bindable.Proofs.Source.UnitLayout
import Bindable.Proofs.Source.UnitText
import Bindable.Proofs.Table
import Bindable.Proofs.Text.Cut
import Bindable.Proofs.Text.Identifiers
import Bindable.Proofs.Text.Stripping
import Bindable.Proofs.Text.Words
import Bindable.Source.Expr
import Bindable.Source.Literal
import Bindable.Source.Member
import Bindable.Source.Unit
import Bindable.Table
import Bindable.Text.Code
import Bindable.Text.Cut
import Bindable.Text.Identifier
import Bindable.Text.Letters
