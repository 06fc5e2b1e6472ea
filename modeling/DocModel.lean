import DocModel.Activity
import DocModel.Binary64
import DocModel.Binary64.Decimal
import DocModel.Cache
import DocModel.Choice
import DocModel.Cli
import DocModel.Cli.Arguments
import DocModel.Cli.Error
import DocModel.Compile
import DocModel.Config
import DocModel.Config.Reader
import DocModel.Definition
import DocModel.Definition.Entry
import DocModel.Definition.Reader
import DocModel.ErrorCode
import DocModel.FileTree
import DocModel.Json
import DocModel.Json.Equality
import DocModel.Json.Mismatch
import DocModel.Json.Printer
import DocModel.Json.Reader
import DocModel.Json.Skim
import DocModel.Json.Token
import DocModel.Json.Token.Number
import DocModel.Json.Token.Quoted
import DocModel.Json.Token.Scan
import DocModel.Log.Event
import DocModel.Log.Record
import DocModel.Log.Scope
import DocModel.Log.Severity
import DocModel.Main
import DocModel.Metrics
import DocModel.Oracle
import DocModel.Proofs.Binary64.Merged
import DocModel.Proofs.Binary64.Order
import DocModel.Proofs.Binary64.Round
import DocModel.Proofs.Cache.Insert
import DocModel.Proofs.Cache.Serve
import DocModel.Proofs.Cache.Shared
import DocModel.Proofs.Choice
import DocModel.Proofs.Choice.Lookup
import DocModel.Proofs.Clean.Accounted
import DocModel.Proofs.Clean.Asks
import DocModel.Proofs.Clean.Correct
import DocModel.Proofs.Clean.Counters
import DocModel.Proofs.Clean.Fixed
import DocModel.Proofs.Clean.Maps
import DocModel.Proofs.Clean.Questions
import DocModel.Proofs.Clean.Reach
import DocModel.Proofs.Clean.Reference
import DocModel.Proofs.Clean.Reordered
import DocModel.Proofs.Clean.Rules
import DocModel.Proofs.Clean.Steady
import DocModel.Proofs.Clean.Strikes
import DocModel.Proofs.Clean.Struck
import DocModel.Proofs.Clean.Tally
import DocModel.Proofs.Clean.Yields
import DocModel.Proofs.Cli.Answers
import DocModel.Proofs.Compile.Account
import DocModel.Proofs.Compile.Blame
import DocModel.Proofs.Compile.Bracketed
import DocModel.Proofs.Compile.Calls
import DocModel.Proofs.Compile.Confined
import DocModel.Proofs.Compile.Consistent
import DocModel.Proofs.Compile.Cycle
import DocModel.Proofs.Compile.Described
import DocModel.Proofs.Compile.History
import DocModel.Proofs.Compile.Ledger
import DocModel.Proofs.Compile.Lenient
import DocModel.Proofs.Compile.Limits
import DocModel.Proofs.Compile.Linked
import DocModel.Proofs.Compile.Marks
import DocModel.Proofs.Compile.Reached
import DocModel.Proofs.Compile.Registered
import DocModel.Proofs.Compile.Resolved
import DocModel.Proofs.Compile.Run
import DocModel.Proofs.Compile.Serial
import DocModel.Proofs.Compile.Sharing
import DocModel.Proofs.Compile.Shuffled
import DocModel.Proofs.Compile.Stacks
import DocModel.Proofs.Compile.Terminates
import DocModel.Proofs.Compile.Unshared
import DocModel.Proofs.Compile.Unwinds
import DocModel.Proofs.Definition.Added
import DocModel.Proofs.Definition.Document
import DocModel.Proofs.Definition.Entry
import DocModel.Proofs.Definition.Stated
import DocModel.Proofs.Except
import DocModel.Proofs.Field
import DocModel.Proofs.FileTree
import DocModel.Proofs.Json.Alike
import DocModel.Proofs.Json.Distinct
import DocModel.Proofs.Json.Insert
import DocModel.Proofs.Json.Members
import DocModel.Proofs.Json.Number
import DocModel.Proofs.Json.Render
import DocModel.Proofs.Json.Renumbered
import DocModel.Proofs.Json.Reordered
import DocModel.Proofs.Json.Reread
import DocModel.Proofs.Lists
import DocModel.Proofs.Location
import DocModel.Proofs.Location.Leaf
import DocModel.Proofs.Log.Line
import DocModel.Proofs.Log.Scope
import DocModel.Proofs.Property
import DocModel.Proofs.Schema
import DocModel.Proofs.Source
import DocModel.Proofs.Source.Embeds
import DocModel.Proofs.Source.Faults
import DocModel.Proofs.Source.Reads
import DocModel.Proofs.Source.Searched
import DocModel.Proofs.Source.Shuffled
import DocModel.Proofs.Text.Bytes
import DocModel.Proofs.Validator.Accept
import DocModel.Proofs.Validator.Again
import DocModel.Proofs.Validator.Anywhere
import DocModel.Proofs.Validator.Completes
import DocModel.Proofs.Validator.Distinct
import DocModel.Proofs.Validator.Entries
import DocModel.Proofs.Validator.Failure
import DocModel.Proofs.Validator.Homomorphism
import DocModel.Proofs.Validator.Idempotent
import DocModel.Proofs.Validator.Inversion
import DocModel.Proofs.Validator.Lenient
import DocModel.Proofs.Validator.Listed
import DocModel.Proofs.Validator.Located
import DocModel.Proofs.Validator.Moved
import DocModel.Proofs.Validator.Named
import DocModel.Proofs.Validator.Occurs
import DocModel.Proofs.Validator.Paths
import DocModel.Proofs.Validator.Reordered
import DocModel.Proofs.Validator.Required
import DocModel.Proofs.Validator.Returns
import DocModel.Proofs.Validator.Rewrites
import DocModel.Proofs.Validator.Shuffled
import DocModel.SchemaError
import DocModel.Source
import DocModel.Source.Directory
import DocModel.Summary
import DocModel.Temporal
import DocModel.Text
import DocModel.Text.Quoted
import DocModel.Validator
import DocModel.Validator.Check
import DocModel.Validator.Clean
import DocModel.Validator.Validate
import DocModel.Violation
