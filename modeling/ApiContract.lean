import ApiContract.Calendar.Basic
import ApiContract.Calendar.IsoText
import ApiContract.CommandLine.Arguments
import ApiContract.CommandLine.Run
import ApiContract.CommandLine.Usage
import ApiContract.Documentation.Convert
import ApiContract.Documentation.Doc
import ApiContract.Documentation.OpenApi
import ApiContract.Documentation.Operation
import ApiContract.Fault
import ApiContract.Files
import ApiContract.Format
import ApiContract.Http.Cookie
import ApiContract.Http.HeaderOptions
import ApiContract.Http.Multipart
import ApiContract.Http.Percent
import ApiContract.Http.Request
import ApiContract.Http.Response
import ApiContract.Json.Reader
import ApiContract.Json.Writer
import ApiContract.Main
import ApiContract.Normalization.Clean
import ApiContract.Normalization.Convert
import ApiContract.Normalization.Defaults
import ApiContract.Normalization.Pipeline
import ApiContract.Number.Binary64
import ApiContract.Number.Divisibility
import ApiContract.Number.Numeral
import ApiContract.Number.Reading
import ApiContract.Number.Shortest
import ApiContract.Proofs.Absence
import ApiContract.Proofs.Acceptance
import ApiContract.Proofs.Annotated
import ApiContract.Proofs.Cleaning
import ApiContract.Proofs.Compilation
import ApiContract.Proofs.Conformance
import ApiContract.Proofs.Conversion
import ApiContract.Proofs.DocumentedRoutes
import ApiContract.Proofs.EmptyBodies
import ApiContract.Proofs.Entries
import ApiContract.Proofs.Filling
import ApiContract.Proofs.Handling
import ApiContract.Proofs.HeaderNames
import ApiContract.Proofs.Idempotence
import ApiContract.Proofs.Induction
import ApiContract.Proofs.IntegerText
import ApiContract.Proofs.ListLemmas
import ApiContract.Proofs.Passage
import ApiContract.Proofs.NumeralPatterns
import ApiContract.Proofs.References
import ApiContract.Proofs.Registration
import ApiContract.Proofs.RepeatedKeys
import ApiContract.Proofs.ResolvedReferences
import ApiContract.Proofs.Satisfaction
import ApiContract.Proofs.SchemaEquality
import ApiContract.Proofs.TextForm
import ApiContract.Proofs.Trace
import ApiContract.Proofs.WellFormed
import ApiContract.Regex.Basic
import ApiContract.Regex.Matcher
import ApiContract.Regex.Parser
import ApiContract.Routing.Application
import ApiContract.Routing.Context
import ApiContract.Routing.PathPattern
import ApiContract.Routing.Registry
import ApiContract.Routing.Router
import ApiContract.Routing.Stage
import ApiContract.Schema.Basic
import ApiContract.Schema.Builder
import ApiContract.Schema.ComponentName
import ApiContract.Schema.Definition
import ApiContract.Schema.Equality
import ApiContract.Schema.Load
import ApiContract.Schema.ReadyMade
import ApiContract.Settings.Basic
import ApiContract.Settings.Load
import ApiContract.Settings.LogLevel
import ApiContract.Target
import ApiContract.Telemetry
import ApiContract.Text.DecimalDigit
import ApiContract.Text.Encoding
import ApiContract.Text.LetterCase
import ApiContract.Text.Printable
import ApiContract.Text.Quoted
import ApiContract.Text.WordCharacter
import ApiContract.Validation.Check
import ApiContract.Validation.Compile
import ApiContract.Validation.Validator
import ApiContract.Validation.Violation
import ApiContract.Value.Basic
import ApiContract.Value.Display
import ApiContract.Value.Order
import ApiContract.Yaml.Cursor
import ApiContract.Yaml.Document
import ApiContract.Yaml.Node
import ApiContract.Yaml.Scalar
import ApiContract.Yaml.ScalarText
import ApiContract.Yaml.Scanner
import ApiContract.Yaml.Token
import ApiContract.Proofs.UndeclaredInput
import ApiContract.Proofs.Parts
import ApiContract.Proofs.Independence
import ApiContract.Proofs.Inheritance
import ApiContract.Proofs.UndeclaredKeys
import ApiContract.Proofs.Disclosure
import ApiContract.Proofs.Doubles
import ApiContract.Proofs.MemberOrder
import ApiContract.Proofs.Members
import ApiContract.Proofs.MissingProperties
import ApiContract.Proofs.Operations
import ApiContract.Proofs.OptionalBodies
import ApiContract.Proofs.OptionalParameters
import ApiContract.Proofs.Builds
import ApiContract.Proofs.CanonicalText
import ApiContract.Proofs.Totality
import ApiContract.Proofs.EscapedText
import ApiContract.Proofs.JsonEquality
import ApiContract.Proofs.UniqueText
import ApiContract.Proofs.JsonSchema
import ApiContract.Proofs.DocumentMeaning
import ApiContract.Proofs.NodeDocuments
import ApiContract.Proofs.DocumentedValidity
import ApiContract.Proofs.DocumentedBodies
import ApiContract.Proofs.Children
import ApiContract.Proofs.Collection
import ApiContract.Proofs.CollectorCalls
import ApiContract.Proofs.ExpandedDocuments
import ApiContract.Proofs.Expansion
import ApiContract.Proofs.ValueEquality
import ApiContract.Proofs.FailedCalls
import ApiContract.Proofs.SerializableValues
import ApiContract.Proofs.AlikeDocuments
import ApiContract.Proofs.ComponentDocuments
import ApiContract.Proofs.DefinitionGrammar
import ApiContract.Proofs.DefinitionMembers
import ApiContract.Proofs.RelaxedRequirements
import ApiContract.Proofs.LoadedDocuments
import ApiContract.Proofs.StandardReading
import ApiContract.Proofs.EnforcedDefinitions
import ApiContract.Proofs.RegistryRuns
import ApiContract.Proofs.FailureResponses
import ApiContract.Proofs.BodyStates
import ApiContract.Proofs.StageOrder
import ApiContract.Proofs.Dispatch
import ApiContract.Proofs.UndecodableBodies
import ApiContract.Proofs.ServedDocument
import ApiContract.Proofs.SharedNames
import ApiContract.Proofs.DocumentableRegistries
import ApiContract.Proofs.Origins
import ApiContract.Proofs.Enumeration
import ApiContract.Proofs.RefinementVisits
import ApiContract.Proofs.LazyEnumeration
import ApiContract.Proofs.ValidValues
import ApiContract.Proofs.ErrorPlaces
import ApiContract.Proofs.EqualSchemas
import ApiContract.Proofs.DisplayLimit
import ApiContract.Proofs.MalformedSchemas
import ApiContract.Proofs.StageFixpoints
import ApiContract.Proofs.FilledDefaults
import ApiContract.Proofs.RequiredProperties
import ApiContract.Proofs.RefinementChains
import ApiContract.Proofs.SelfEquality
import ApiContract.Proofs.ConversionOrder
import ApiContract.Proofs.JoinedPaths
import ApiContract.Proofs.Mounting
import ApiContract.Proofs.RepeatedItems
import ApiContract.Proofs.FoldedHeaders
import ApiContract.Proofs.DocumentationFaults
import ApiContract.Proofs.DocumentedParameters
import ApiContract.Proofs.StatusOrder
import ApiContract.Proofs.IntegralSteps
import ApiContract.Proofs.PathParameters
import ApiContract.Proofs.FailedBuilds
import ApiContract.Proofs.ShownNames
import ApiContract.Proofs.LegalNames
import ApiContract.Proofs.CompiledDefinitions
