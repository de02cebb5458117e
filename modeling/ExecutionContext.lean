import ExecutionContext.Arena
import ExecutionContext.Table
import ExecutionContext.OpenClass
import ExecutionContext.Decimal.Positional
import ExecutionContext.Text.Quoted
import ExecutionContext.Text.Blank
import ExecutionContext.Value.Equality
import ExecutionContext.Value.Written
import ExecutionContext.Signal
import ExecutionContext.Scope
import ExecutionContext.Chain
import ExecutionContext.Namespace
import ExecutionContext.Globals
import ExecutionContext.Settings
import ExecutionContext.Builtin
import ExecutionContext.Block
import ExecutionContext.Context.Activation
import ExecutionContext.Context.Classes
import ExecutionContext.Context.Loading
import ExecutionContext.Context.Report
import ExecutionContext.Context.Start
import ExecutionContext.Script.Execute
import ExecutionContext.Trial.Stacks
import ExecutionContext.Trial.Variables
import ExecutionContext.Trial.Modules
import ExecutionContext.Trial.Values
import ExecutionContext.Proofs.Contract
import ExecutionContext.Proofs.Discipline
import ExecutionContext.Proofs.Meaning
import ExecutionContext.Proofs.Layer
import ExecutionContext.Proofs.Installation
import ExecutionContext.Proofs.Opening
import ExecutionContext.Proofs.Program
import ExecutionContext.Proofs.Balance
import ExecutionContext.Proofs.Calm
import ExecutionContext.Proofs.Recording
import ExecutionContext.Proofs.Capture
import ExecutionContext.Proofs.Home
import ExecutionContext.Proofs.Literal
import ExecutionContext.Proofs.Escape
import ExecutionContext.Proofs.Routing
import ExecutionContext.Proofs.Location
import ExecutionContext.Proofs.Sharing
import ExecutionContext.Proofs.Aliases
import ExecutionContext.Proofs.NearestCall
import ExecutionContext.Proofs.Refusal
import ExecutionContext.Proofs.Operations
import ExecutionContext.Proofs.SafeLevel
import ExecutionContext.Proofs.Foundation
import ExecutionContext.Proofs.Supplement
import ExecutionContext.Proofs.Scenes
import ExecutionContext.Proofs.Depth
import ExecutionContext.Proofs.Reattachment
import ExecutionContext.Proofs.Chains
import ExecutionContext.Proofs.Diary
import ExecutionContext.Proofs.Lineage
import ExecutionContext.Proofs.SharedVariables
import ExecutionContext.Proofs.PlainCalls
import ExecutionContext.Proofs.Steady
import ExecutionContext.Proofs.Redo
import ExecutionContext.Proofs.Handles
import ExecutionContext.Proofs.DefaultBinder
import ExecutionContext.Proofs.ScopeSlots
import ExecutionContext.Proofs.Locals
import ExecutionContext.Proofs.Compilation
import ExecutionContext.Proofs.Nesting
import ExecutionContext.Proofs.ArrayCycles
import ExecutionContext.Proofs.HeapGrowth
import ExecutionContext.Proofs.HeapRuns
import ExecutionContext.Proofs.ValueEquality
import ExecutionContext.Proofs.Iteration
import ExecutionContext.Proofs.ClassGraph
import ExecutionContext.Proofs.Starting
import ExecutionContext.Proofs.Definitions
import ExecutionContext.Proofs.NameTables
import ExecutionContext.Proofs.ConstantLookup
import ExecutionContext.Proofs.Staying
import ExecutionContext.Proofs.Rooting
import ExecutionContext.Proofs.Resolution
import ExecutionContext.Proofs.StackMoves
import ExecutionContext.Proofs.HandleFamilies
import ExecutionContext.Proofs.StoredValues
import ExecutionContext.Proofs.SearchPath
import ExecutionContext.Proofs.Backtraces
import ExecutionContext.Proofs.Origins
import ExecutionContext.Text.Utf8
import ExecutionContext.Proofs.LossyText
import ExecutionContext.Proofs.Effects
