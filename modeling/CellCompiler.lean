import CellCompiler.Address
import CellCompiler.Bits
import CellCompiler.Cell.Bag
import CellCompiler.Cell.Basic
import CellCompiler.Cell.Builder
import CellCompiler.Cell.Slice
import CellCompiler.CommandLine.Arguments
import CellCompiler.CommandLine.Directory
import CellCompiler.CommandLine.Run
import CellCompiler.Compile
import CellCompiler.Config
import CellCompiler.Dict
import CellCompiler.Emission.Output
import CellCompiler.Emission.Registry
import CellCompiler.Error
import CellCompiler.ExitCode
import CellCompiler.Generate.Accessor
import CellCompiler.Generate.Basic
import CellCompiler.Generate.Codec
import CellCompiler.Generate.Contract
import CellCompiler.Generate.Expr
import CellCompiler.Generate.Function
import CellCompiler.Generate.Helper
import CellCompiler.Generate.Intrinsic
import CellCompiler.Generate.Literal
import CellCompiler.Generate.MapKind
import CellCompiler.Generate.Operand
import CellCompiler.Generate.Router
import CellCompiler.Generate.State
import CellCompiler.Generate.Stmt
import CellCompiler.Json.Basic
import CellCompiler.Json.Decode
import CellCompiler.Json.Parser
import CellCompiler.Json.Plan
import CellCompiler.Json.Printer
import CellCompiler.Json.Source
import CellCompiler.Json.Target
import CellCompiler.Json.Value
import CellCompiler.Layout
import CellCompiler.Literal
import CellCompiler.Machine.Primitive
import CellCompiler.Machine.Run
import CellCompiler.Machine.Value
import CellCompiler.Main
import CellCompiler.Name
import CellCompiler.NameSet
import CellCompiler.Numeral
import CellCompiler.Plan.Basic
import CellCompiler.Plan.Error
import CellCompiler.Plan.Planner
import CellCompiler.Plan.Usage
import CellCompiler.Proofs.Address
import CellCompiler.Proofs.Arrival
import CellCompiler.Proofs.Bag.Accepted
import CellCompiler.Proofs.Bag.Bytes
import CellCompiler.Proofs.Bag.Order
import CellCompiler.Proofs.Bag.RoundTrip
import CellCompiler.Proofs.Bits
import CellCompiler.Proofs.Calling
import CellCompiler.Proofs.Calling.Bodies
import CellCompiler.Proofs.Calling.Contracts
import CellCompiler.Proofs.Calling.Convention
import CellCompiler.Proofs.Calling.Lowering
import CellCompiler.Proofs.Calling.Program
import CellCompiler.Proofs.Calling.Records
import CellCompiler.Proofs.Cell
import CellCompiler.Proofs.Cell.Hash
import CellCompiler.Proofs.Cell.Registers
import CellCompiler.Proofs.Cell.Script
import CellCompiler.Proofs.Cell.Tail
import CellCompiler.Proofs.Cell.Trace
import CellCompiler.Proofs.Closure
import CellCompiler.Proofs.Codec.Bounced
import CellCompiler.Proofs.Codec.Capacity
import CellCompiler.Proofs.Codec.Contract
import CellCompiler.Proofs.Codec.Conversion
import CellCompiler.Proofs.Codec.Dictionary
import CellCompiler.Proofs.Codec.Field
import CellCompiler.Proofs.Codec.Handlers
import CellCompiler.Proofs.Codec.Incoming
import CellCompiler.Proofs.Codec.Link
import CellCompiler.Proofs.Codec.Load
import CellCompiler.Proofs.Codec.Loaders
import CellCompiler.Proofs.Codec.Message
import CellCompiler.Proofs.Codec.Outside
import CellCompiler.Proofs.Codec.Record
import CellCompiler.Proofs.Codec.RoundTrip
import CellCompiler.Proofs.Codec.Space
import CellCompiler.Proofs.Codec.State
import CellCompiler.Proofs.Codec.Store
import CellCompiler.Proofs.Codec.Variables
import CellCompiler.Proofs.Codec.Verified
import CellCompiler.Proofs.Codec.Walk
import CellCompiler.Proofs.Codec.Wire
import CellCompiler.Proofs.Codec.Wrappers
import CellCompiler.Proofs.Constant.Addressed
import CellCompiler.Proofs.Constant.Embedding
import CellCompiler.Proofs.Constant.Folding
import CellCompiler.Proofs.Constant.Literal
import CellCompiler.Proofs.Constant.Preservation
import CellCompiler.Proofs.Constant.Typing
import CellCompiler.Proofs.Crc16
import CellCompiler.Proofs.Descent
import CellCompiler.Proofs.Dict
import CellCompiler.Proofs.Emission.Order
import CellCompiler.Proofs.Emission.Pruning
import CellCompiler.Proofs.Emission.Sorting
import CellCompiler.Proofs.Failure
import CellCompiler.Proofs.Generate.Bodies
import CellCompiler.Proofs.Generate.Composition
import CellCompiler.Proofs.Generate.Construction
import CellCompiler.Proofs.Generate.Contracts
import CellCompiler.Proofs.Generate.Counting
import CellCompiler.Proofs.Generate.Cursor
import CellCompiler.Proofs.Generate.Data
import CellCompiler.Proofs.Generate.Deployment
import CellCompiler.Proofs.Generate.Entering
import CellCompiler.Proofs.Generate.Equality
import CellCompiler.Proofs.Generate.Fields
import CellCompiler.Proofs.Generate.History
import CellCompiler.Proofs.Generate.Lowering
import CellCompiler.Proofs.Generate.Receivers
import CellCompiler.Proofs.Generate.Records
import CellCompiler.Proofs.Generate.Results
import CellCompiler.Proofs.Generate.Rules
import CellCompiler.Proofs.Generate.Success
import CellCompiler.Proofs.Generate.Traversal
import CellCompiler.Proofs.Generate.Writes
import CellCompiler.Proofs.Incoming
import CellCompiler.Proofs.Isolation
import CellCompiler.Proofs.Json.Decode
import CellCompiler.Proofs.Json.Emission
import CellCompiler.Proofs.Json.Program
import CellCompiler.Proofs.Json.Source
import CellCompiler.Proofs.Json.Target
import CellCompiler.Proofs.Json.Text
import CellCompiler.Proofs.Json.Value
import CellCompiler.Proofs.Layout
import CellCompiler.Proofs.Layout.Existence
import CellCompiler.Proofs.Layout.Fold
import CellCompiler.Proofs.Layout.Views
import CellCompiler.Proofs.Literal
import CellCompiler.Proofs.Machine.Alike
import CellCompiler.Proofs.Machine.Comparison
import CellCompiler.Proofs.Machine.Drawing
import CellCompiler.Proofs.Machine.Ending
import CellCompiler.Proofs.Machine.Helpers
import CellCompiler.Proofs.Machine.Keeping
import CellCompiler.Proofs.Machine.Likeness
import CellCompiler.Proofs.Machine.Outcomes
import CellCompiler.Proofs.Machine.Patterns
import CellCompiler.Proofs.Machine.Primitives
import CellCompiler.Proofs.Machine.Representation
import CellCompiler.Proofs.Machine.Rules
import CellCompiler.Proofs.Machine.Sameness
import CellCompiler.Proofs.Machine.Writes
import CellCompiler.Proofs.Name
import CellCompiler.Proofs.Numeral
import CellCompiler.Proofs.Patterned.Bodies
import CellCompiler.Proofs.Patterned.Contracts
import CellCompiler.Proofs.Patterned.Records
import CellCompiler.Proofs.Persistence
import CellCompiler.Proofs.Plan.Acceptance
import CellCompiler.Proofs.Plan.DataCell
import CellCompiler.Proofs.Plan.Endless
import CellCompiler.Proofs.Plan.Growth
import CellCompiler.Proofs.Plan.Order
import CellCompiler.Proofs.Plan.Placement
import CellCompiler.Proofs.Plan.Remainder
import CellCompiler.Proofs.Plan.Soundness
import CellCompiler.Proofs.Plan.Validity
import CellCompiler.Proofs.Router.Branches
import CellCompiler.Proofs.Router.Delivery
import CellCompiler.Proofs.Router.Dispatch
import CellCompiler.Proofs.Scope.Bodies
import CellCompiler.Proofs.Scope.Contracts
import CellCompiler.Proofs.Scope.Records
import CellCompiler.Proofs.Scope.Source
import CellCompiler.Proofs.Scope.Variables
import CellCompiler.Proofs.Source.Table
import CellCompiler.Proofs.Target.Callees
import CellCompiler.Proofs.Target.Calls
import CellCompiler.Proofs.Target.Patterned
import CellCompiler.Proofs.Target.Scope
import CellCompiler.Proofs.Totality
import CellCompiler.Sha256
import CellCompiler.Source.Constant
import CellCompiler.Source.Expr
import CellCompiler.Source.Program
import CellCompiler.Source.Stmt
import CellCompiler.Source.Table
import CellCompiler.Source.Type
import CellCompiler.Source.Value
import CellCompiler.Target.Expr
import CellCompiler.Target.Item
import CellCompiler.Target.Outline
import CellCompiler.Target.Stmt
import CellCompiler.Target.Type
import CellCompiler.Text.Quoted
