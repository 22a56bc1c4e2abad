import Gatehouse.Access.Caller
import Gatehouse.Access.Gate
import Gatehouse.Access.Method
import Gatehouse.Access.Permission
import Gatehouse.Assignment.Basic
import Gatehouse.Assignment.Management
import Gatehouse.Assignment.Search
import Gatehouse.Effect.Program
import Gatehouse.Evaluation.Basic
import Gatehouse.Evaluation.Management
import Gatehouse.Filter.Expr
import Gatehouse.Filter.Parser
import Gatehouse.Filter.Token
import Gatehouse.Filter.Token.Lexer
import Gatehouse.Group.Basic
import Gatehouse.Group.Management
import Gatehouse.Http.Exchange
import Gatehouse.Http.Form
import Gatehouse.Http.Host
import Gatehouse.Http.Url
import Gatehouse.Json.Basic
import Gatehouse.Json.Order
import Gatehouse.Json.Printer
import Gatehouse.Json.Reader
import Gatehouse.Json.Record
import Gatehouse.Number.Double
import Gatehouse.Number.Shortest
import Gatehouse.Occurrence.Basic
import Gatehouse.Occurrence.Client
import Gatehouse.Occurrence.Listing
import Gatehouse.Policy.Basic
import Gatehouse.Policy.Management
import Gatehouse.Policy.VersionId
import Gatehouse.Rego.Compile
import Gatehouse.Rego.Contract
import Gatehouse.Rego.Grammar
import Gatehouse.Rego.Parser
import Gatehouse.Rego.Token
import Gatehouse.Rego.Token.Lexer
import Gatehouse.Rego.Tree
import Gatehouse.Rego.Validation
import Gatehouse.Rego.Walk
import Gatehouse.Resource.Resolution
import Gatehouse.Resource.Selection
import Gatehouse.Resource.Uri
import Gatehouse.Resource.Version
import Gatehouse.RuleEngine.Basic
import Gatehouse.RuleEngine.Client
import Gatehouse.Service.Basic
import Gatehouse.Service.Effect
import Gatehouse.Service.Error
import Gatehouse.Service.Listing
import Gatehouse.Service.Network
import Gatehouse.Settings
import Gatehouse.Store.Call
import Gatehouse.Store.Document
import Gatehouse.Store.Error
import Gatehouse.Store.Index
import Gatehouse.Store.Memory
import Gatehouse.Store.PageToken
import Gatehouse.Store.Query
import Gatehouse.Table
import Gatehouse.Text.Base64
import Gatehouse.Text.Blank
import Gatehouse.Text.Cut
import Gatehouse.Text.Digits
import Gatehouse.Text.Hex
import Gatehouse.Text.Hidden
import Gatehouse.Text.Percent
import Gatehouse.Text.Piece
import Gatehouse.Text.Quoted
import Gatehouse.Time.Calendar
import Gatehouse.Time.Instant
import Gatehouse.Time.Json
import Gatehouse.Time.Reading
import Gatehouse.Proofs.Access.Configuration
import Gatehouse.Proofs.Assignment.Crossing
import Gatehouse.Proofs.Assignment.Management
import Gatehouse.Proofs.Assignment.Overlap
import Gatehouse.Proofs.Assignment.References
import Gatehouse.Proofs.Assignment.Search
import Gatehouse.Proofs.Effect.Interleaving
import Gatehouse.Proofs.Effect.Run
import Gatehouse.Proofs.Evaluation.AuditLog
import Gatehouse.Proofs.Evaluation.Coherence
import Gatehouse.Proofs.Evaluation.FailClosed
import Gatehouse.Proofs.Evaluation.Faithfulness
import Gatehouse.Proofs.Evaluation.Isolation
import Gatehouse.Proofs.Evaluation.Overlap
import Gatehouse.Proofs.Evaluation.Retrieval
import Gatehouse.Proofs.Evaluation.Trail
import Gatehouse.Proofs.Evaluation.Uploads
import Gatehouse.Proofs.Filter.Comparison
import Gatehouse.Proofs.Filter.Grammar
import Gatehouse.Proofs.Group.Deletion
import Gatehouse.Proofs.Group.Management
import Gatehouse.Proofs.Group.Names
import Gatehouse.Proofs.Http.Segments
import Gatehouse.Proofs.Http.Target
import Gatehouse.Proofs.Json.Members
import Gatehouse.Proofs.Json.Order
import Gatehouse.Proofs.Json.Record
import Gatehouse.Proofs.Json.Strings
import Gatehouse.Proofs.Number.Double
import Gatehouse.Proofs.Occurrence.Details
import Gatehouse.Proofs.Occurrence.RoundTrip
import Gatehouse.Proofs.Policy.Management
import Gatehouse.Proofs.Policy.Overlap
import Gatehouse.Proofs.Policy.Overwriting
import Gatehouse.Proofs.Policy.Spellings
import Gatehouse.Proofs.Policy.Versions
import Gatehouse.Proofs.Rego.Alike
import Gatehouse.Proofs.Rego.Binding
import Gatehouse.Proofs.Rego.Bodies
import Gatehouse.Proofs.Rego.Comprehension
import Gatehouse.Proofs.Rego.Depth
import Gatehouse.Proofs.Rego.Gaps
import Gatehouse.Proofs.Rego.Grammar
import Gatehouse.Proofs.Rego.InStep
import Gatehouse.Proofs.Rego.Layout
import Gatehouse.Proofs.Rego.Lexemes
import Gatehouse.Proofs.Rego.Lines
import Gatehouse.Proofs.Rego.Numerals
import Gatehouse.Proofs.Rego.Parser
import Gatehouse.Proofs.Rego.Parts
import Gatehouse.Proofs.Rego.OneRule
import Gatehouse.Proofs.Rego.Places
import Gatehouse.Proofs.Rego.Precedence
import Gatehouse.Proofs.Rego.Report
import Gatehouse.Proofs.Rego.Runs
import Gatehouse.Proofs.Rego.Source
import Gatehouse.Proofs.Rego.Strings
import Gatehouse.Proofs.Rego.Unplaced
import Gatehouse.Proofs.Resource.Decomposition
import Gatehouse.Proofs.Resource.Forms
import Gatehouse.Proofs.Resource.Lineage
import Gatehouse.Proofs.Resource.Selection
import Gatehouse.Proofs.RuleEngine.Address
import Gatehouse.Proofs.RuleEngine.Protocol
import Gatehouse.Proofs.Service.Calls
import Gatehouse.Proofs.Service.Change
import Gatehouse.Proofs.Service.Codecs
import Gatehouse.Proofs.Service.Concurrency
import Gatehouse.Proofs.Service.Failure
import Gatehouse.Proofs.Service.Faultless
import Gatehouse.Proofs.Service.Faults
import Gatehouse.Proofs.Service.Gate
import Gatehouse.Proofs.Service.Holdings
import Gatehouse.Proofs.Service.Links
import Gatehouse.Proofs.Service.Listings
import Gatehouse.Proofs.Service.Lookup
import Gatehouse.Proofs.Service.Paging
import Gatehouse.Proofs.Service.Progress
import Gatehouse.Proofs.Service.Reading
import Gatehouse.Proofs.Service.Restraint
import Gatehouse.Proofs.Service.Run
import Gatehouse.Proofs.Service.Surroundings
import Gatehouse.Proofs.Service.Traffic
import Gatehouse.Proofs.Store.Bulk
import Gatehouse.Proofs.Store.Catalog
import Gatehouse.Proofs.Store.Index
import Gatehouse.Proofs.Store.Memory
import Gatehouse.Proofs.Store.Paging
import Gatehouse.Proofs.Store.Readings
import Gatehouse.Proofs.Store.Sorting
import Gatehouse.Proofs.Text.Base64
import Gatehouse.Proofs.Text.Digits
import Gatehouse.Proofs.Text.Percent
import Gatehouse.Proofs.Text.Uuid
import Gatehouse.Proofs.Time.Calendar
import Gatehouse.Proofs.Time.Kept
import Gatehouse.Proofs.Time.Order
import Gatehouse.Proofs.Time.Reading
