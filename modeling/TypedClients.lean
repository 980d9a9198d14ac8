import TypedClients.Client.Member
import TypedClients.Client.Module
import TypedClients.Client.PathExpression
import TypedClients.Client.Reference
import TypedClients.Command.Arguments
import TypedClients.Command.Program
import TypedClients.Command.Reach
import TypedClients.Command.Request
import TypedClients.Console.Basic
import TypedClients.Document.Basic
import TypedClients.Document.Decoding
import TypedClients.Document.Loading
import TypedClients.Document.Pointer
import TypedClients.Files.Changes
import TypedClients.Files.Session
import TypedClients.Files.Path
import TypedClients.Files.Tree
import TypedClients.Generation
import TypedClients.Json.Fault
import TypedClients.Json.Printer
import TypedClients.Json.Reader
import TypedClients.Layout.Folder
import TypedClients.Layout.Preview
import TypedClients.Main
import TypedClients.Model.Fit
import TypedClients.Naming.Identifier
import TypedClients.Naming.Path
import TypedClients.Naming.Service
import TypedClients.Naming.Suffix
import TypedClients.Number.Binary
import TypedClients.Number.Digits
import TypedClients.Number.Shortest
import TypedClients.Operation.Basic
import TypedClients.Operation.Extraction
import TypedClients.Ordered
import TypedClients.Proofs.Client.Binding
import TypedClients.Proofs.Client.Calls
import TypedClients.Proofs.Client.Comments
import TypedClients.Proofs.Client.Imports
import TypedClients.Proofs.Client.MemberNames
import TypedClients.Proofs.Client.MemberTypes
import TypedClients.Proofs.Client.Paths
import TypedClients.Proofs.Client.Placeholders
import TypedClients.Proofs.Client.Quotes
import TypedClients.Proofs.Client.Silence
import TypedClients.Proofs.Client.Words
import TypedClients.Proofs.Document.Branches
import TypedClients.Proofs.Document.Definitions
import TypedClients.Proofs.Document.Rereading
import TypedClients.Proofs.Files.Below
import TypedClients.Proofs.Files.Beside
import TypedClients.Proofs.Files.Folders
import TypedClients.Proofs.Files.Parts
import TypedClients.Proofs.Files.Places
import TypedClients.Proofs.Files.Reading
import TypedClients.Proofs.Files.Removal
import TypedClients.Proofs.Files.Settled
import TypedClients.Proofs.Files.Writing
import TypedClients.Proofs.Generation
import TypedClients.Proofs.Generation.ClassNames
import TypedClients.Proofs.Generation.Comments
import TypedClients.Proofs.Generation.Containment
import TypedClients.Proofs.Generation.Files
import TypedClients.Proofs.Generation.FixedNames
import TypedClients.Proofs.Generation.Imports
import TypedClients.Proofs.Generation.Operations
import TypedClients.Proofs.Generation.Parts
import TypedClients.Proofs.Generation.TypeNames
import TypedClients.Proofs.Generation.TypesFiles
import TypedClients.Proofs.Generation.Writable
import TypedClients.Proofs.Layout.Paths
import TypedClients.Proofs.Layout.Preview
import TypedClients.Proofs.Migration.Clients
import TypedClients.Proofs.Migration.Documents
import TypedClients.Proofs.Migration.Generation
import TypedClients.Proofs.Migration.Operations
import TypedClients.Proofs.Migration.Parameters
import TypedClients.Proofs.Migration.References
import TypedClients.Proofs.Migration.Schemas
import TypedClients.Proofs.Migration.Types
import TypedClients.Proofs.Migration.Values
import TypedClients.Proofs.Naming.Candidates
import TypedClients.Proofs.Naming.Case
import TypedClients.Proofs.Naming.Identifiers
import TypedClients.Proofs.Operation.InPlace
import TypedClients.Proofs.Operation.Keys
import TypedClients.Proofs.Operation.Merging
import TypedClients.Proofs.Operation.Places
import TypedClients.Proofs.Operation.Pointers
import TypedClients.Proofs.Operation.References
import TypedClients.Proofs.Operation.StrayFields
import TypedClients.Proofs.Report.Outcome
import TypedClients.Proofs.Report.Reasons
import TypedClients.Proofs.Run.Alone
import TypedClients.Proofs.Run.Cleaning
import TypedClients.Proofs.Run.Interleaving
import TypedClients.Proofs.Run.Making
import TypedClients.Proofs.Run.Planning
import TypedClients.Proofs.Run.Reported
import TypedClients.Proofs.Run.Results
import TypedClients.Proofs.Run.Shuffled
import TypedClients.Proofs.Run.Sparing
import TypedClients.Proofs.Run.Phases
import TypedClients.Proofs.Run.Tasks
import TypedClients.Proofs.Schema.Formats
import TypedClients.Proofs.Schema.Nullability
import TypedClients.Proofs.Schema.References
import TypedClients.Proofs.Script.Comment
import TypedClients.Proofs.Script.Literal
import TypedClients.Proofs.Script.Quoted
import TypedClients.Proofs.Script.Template
import TypedClients.Proofs.TypeText.Atoms
import TypedClients.Proofs.TypeText.Brackets
import TypedClients.Proofs.TypeText.Chains
import TypedClients.Proofs.TypeText.Declarations
import TypedClients.Proofs.TypeText.Expansion
import TypedClients.Proofs.TypeText.Following
import TypedClients.Proofs.TypeText.Keys
import TypedClients.Proofs.TypeText.Literals
import TypedClients.Proofs.TypeText.Meaning
import TypedClients.Proofs.TypeText.Names
import TypedClients.Proofs.TypeText.ObjectLiterals
import TypedClients.Proofs.TypeText.OuterReferences
import TypedClients.Proofs.TypeText.Printable
import TypedClients.Proofs.TypeText.Quoting
import TypedClients.Proofs.TypeText.Reader
import TypedClients.Proofs.TypeText.Scans
import TypedClients.Proofs.TypeText.Spelling
import TypedClients.Proofs.TypeText.Splitting
import TypedClients.Proofs.TypeText.Tokens
import TypedClients.Proofs.TypeText.Tree
import TypedClients.Proofs.Types.Declarations
import TypedClients.Proofs.Types.Drafts
import TypedClients.Proofs.Types.EndpointTypes
import TypedClients.Proofs.Types.FinalNames
import TypedClients.Proofs.Types.History
import TypedClients.Proofs.Types.LegalNames
import TypedClients.Proofs.Types.ReferenceNames
import TypedClients.Proofs.Types.Selection
import TypedClients.Proofs.Types.WantedNames
import TypedClients.Proofs.Value.Forms
import TypedClients.Proofs.Value.Json
import TypedClients.Proofs.Writing.Apart
import TypedClients.Proofs.Writing.Confinement
import TypedClients.Proofs.Writing.Queue
import TypedClients.Report.Failure
import TypedClients.Report.Log
import TypedClients.Run.Source
import TypedClients.Run.Tasks
import TypedClients.Run.Sources
import TypedClients.Schema.Basic
import TypedClients.Schema.Index
import TypedClients.Schema.Model
import TypedClients.Schema.Reader
import TypedClients.Settings.Basic
import TypedClients.Settings.Loading
import TypedClients.Text.Base64
import TypedClients.Text.Blank
import TypedClients.Text.Cased
import TypedClients.Text.Charset
import TypedClients.Text.Digit
import TypedClients.Text.Lower
import TypedClients.Text.Pieces
import TypedClients.Text.Sorted
import TypedClients.Text.Surrogate
import TypedClients.Text.Visible
import TypedClients.TypeText.OfOperation
import TypedClients.TypeText.OfSchema
import TypedClients.TypeText.Operators
import TypedClients.TypeText.Scan
import TypedClients.Types.Table
import TypedClients.Types.Definitions
import TypedClients.Types.Endpoints
import TypedClients.Value.AsText
import TypedClients.Value.Basic
import TypedClients.Value.Display
import TypedClients.Value.Moment
import TypedClients.Value.Same
import TypedClients.Writing.Queue
import TypedClients.Writing.FileText
import TypedClients.Yaml.Cursor
import TypedClients.Yaml.Node
import TypedClients.Yaml.Part
import TypedClients.Yaml.Unfolding
import TypedClients.Yaml.Scalar
import TypedClients.Yaml.ScalarText
import TypedClients.Yaml.Tag
import TypedClients.Yaml.Token
import TypedClients.Proofs.Writing.FileText
import TypedClients.Proofs.Client.Scanners
import TypedClients.Proofs.Types.Aliases
import TypedClients.Proofs.Document.Contents
