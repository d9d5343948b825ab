import PersistedDocuments.Text.Blank
import PersistedDocuments.Text.Lines
import PersistedDocuments.Decimal.Basic
import PersistedDocuments.Decimal.Shortest
import PersistedDocuments.GraphQL.Value
import PersistedDocuments.GraphQL.Syntax
import PersistedDocuments.GraphQL.QuotedString
import PersistedDocuments.GraphQL.BlockString
import PersistedDocuments.GraphQL.Token
import PersistedDocuments.GraphQL.Lexeme
import PersistedDocuments.GraphQL.Reader
import PersistedDocuments.GraphQL.Grammar
import PersistedDocuments.GraphQL.Printer
import PersistedDocuments.QueryId
import PersistedDocuments.Json.Problem
import PersistedDocuments.Failure
import PersistedDocuments.GraphQL.Spreads
import PersistedDocuments.Reachable
import PersistedDocuments.Canonical
import PersistedDocuments.Reduction
import PersistedDocuments.Transformer
import PersistedDocuments.Typename
import PersistedDocuments.Key
import PersistedDocuments.Embedded.Placeholder
import PersistedDocuments.Embedded.Literal
import PersistedDocuments.Manifest.Basic
import PersistedDocuments.Manifest.Merge
import PersistedDocuments.Manifest.Builder
import PersistedDocuments.Json.Value
import PersistedDocuments.Json.Quoted
import PersistedDocuments.Json.Number
import PersistedDocuments.Json.Writer
import PersistedDocuments.Json.Decoder
import PersistedDocuments.Json.QueryId
import PersistedDocuments.Manifest.Json
import PersistedDocuments.Request
import PersistedDocuments.Client
import PersistedDocuments.Store
import PersistedDocuments.Resolver
import PersistedDocuments.Toml.Value
import PersistedDocuments.Toml.Text
import PersistedDocuments.Toml.Scalar
import PersistedDocuments.Toml.Reader
import PersistedDocuments.Settings
import PersistedDocuments.CommandLine
import PersistedDocuments.Disk
import PersistedDocuments.Extraction
import PersistedDocuments.Execution
import PersistedDocuments.Main
import PersistedDocuments.Proofs.CanonicalOrder
import PersistedDocuments.Proofs.Sorting
import PersistedDocuments.Proofs.Reachability
import PersistedDocuments.Proofs.Reduction
import PersistedDocuments.Proofs.Rewriting
import PersistedDocuments.Proofs.Outcome
import PersistedDocuments.Proofs.Manifest.Builder
import PersistedDocuments.Proofs.Manifest.Collection
import PersistedDocuments.Proofs.KeyAgreement
import PersistedDocuments.Proofs.Locality
import PersistedDocuments.Proofs.Placeless
import PersistedDocuments.Proofs.Formatting
import PersistedDocuments.Proofs.GraphQL.Continuation
import PersistedDocuments.Proofs.GraphQL.Joining
import PersistedDocuments.Proofs.Crawl
import PersistedDocuments.Proofs.FileByFile
import PersistedDocuments.Proofs.Manifest.Merge
import PersistedDocuments.Proofs.Manifest.Union
import PersistedDocuments.Proofs.Store
import PersistedDocuments.Proofs.Delivery
import PersistedDocuments.Proofs.GraphQL.Phrases
import PersistedDocuments.Proofs.GraphQL.Places
import PersistedDocuments.Proofs.GraphQL.Words
import PersistedDocuments.Proofs.GraphQL.Rewording
import PersistedDocuments.Proofs.GraphQL.Soundness
import PersistedDocuments.Proofs.GraphQL.Written
import PersistedDocuments.Proofs.GraphQL.TypeNames
import PersistedDocuments.Proofs.GraphQL.Completeness
import PersistedDocuments.Proofs.GraphQL.Layout
import PersistedDocuments.Proofs.GraphQL.Spelling
import PersistedDocuments.Proofs.GraphQL.RoundTrip
import PersistedDocuments.Proofs.GraphQL.Alike
import PersistedDocuments.Proofs.GraphQL.Dedent
import PersistedDocuments.Proofs.GraphQL.Settled
import PersistedDocuments.Proofs.Distinctness
import PersistedDocuments.Proofs.Reprinting
import PersistedDocuments.Proofs.FixedPoints
import PersistedDocuments.Proofs.Json.Reading
import PersistedDocuments.Proofs.Manifest.Json
import PersistedDocuments.Proofs.Disk
import PersistedDocuments.Proofs.Walk
import PersistedDocuments.Proofs.Execution
import PersistedDocuments.Proofs.Manifest.Numbering
import PersistedDocuments.Proofs.Needs
import PersistedDocuments.Proofs.SelfContained
import PersistedDocuments.Proofs.GraphQL.Completion
import PersistedDocuments.Proofs.Manifest.Associativity
import PersistedDocuments.Proofs.Embedded.Literals
import PersistedDocuments.Proofs.Embedded.Passages
import PersistedDocuments.Proofs.Embedded.Placeholders
import PersistedDocuments.Proofs.StableOrder
import PersistedDocuments.Proofs.Json.Concurrence
import PersistedDocuments.Proofs.Request
import PersistedDocuments.Proofs.Resolver
import PersistedDocuments.Proofs.WalkOrder
import PersistedDocuments.Proofs.OperationKey
