import ValueShell.Source
import ValueShell.Text.Utf8
import ValueShell.Text.Escaped
import ValueShell.Text.Alphanumeric
import ValueShell.Duration
import ValueShell.Token.Lexer
import ValueShell.Syntax.Parser
import ValueShell.Operation.Lowering
import ValueShell.Value.Equality
import ValueShell.Value.Outcome
import ValueShell.Signature
import ValueShell.Store.Element
import ValueShell.Streams.Capture
import ValueShell.Streams.Channel
import ValueShell.Streams.Wiring
import ValueShell.Modules.Spec
import ValueShell.Modules.Loading
import ValueShell.Interrupt
import ValueShell.Config
import ValueShell.World.Act
import ValueShell.Frame
import ValueShell.Eval
import ValueShell.Session
import ValueShell.Proofs.Capture
import ValueShell.Proofs.Arguments
import ValueShell.Proofs.Outline
import ValueShell.Proofs.Protocol
import ValueShell.Proofs.Watch
import ValueShell.Proofs.Waiting
import ValueShell.Proofs.Watch.Acts
import ValueShell.Proofs.Accounting
import ValueShell.Proofs.Accounting.Lowered
import ValueShell.Proofs.Watch.Frames
import ValueShell.Proofs.Watch.Commands
import ValueShell.Proofs.Watch.Follows
import ValueShell.Proofs.Watch.Execution
import ValueShell.Proofs.Isolation
import ValueShell.Proofs.StaticCheck
import ValueShell.Proofs.Alone
import ValueShell.Proofs.ReadBack.Evaluation
import ValueShell.Proofs.ReadBack.Numbers
import ValueShell.Proofs.ReadBack.Pieces
import ValueShell.Proofs.Parsing
import ValueShell.Proofs.ReadBack.Syntax
import ValueShell.Proofs.ReadBack.Lowering
import ValueShell.Proofs.ReadBack
import ValueShell.Proofs.Flattening
import ValueShell.Proofs.Loading
import ValueShell.Proofs.Dialect
import ValueShell.Proofs.Dialect.Lowered
import ValueShell.Proofs.Logic
import ValueShell.Proofs.Logic.Commands
import ValueShell.Proofs.Logic.Execution
import ValueShell.Proofs.Requests
import ValueShell.Proofs.Orderly
import ValueShell.Proofs.Orderly.Modules
import ValueShell.Proofs.Sequential
import ValueShell.Proofs.Derived
import ValueShell.Proofs.Resolution
import ValueShell.Proofs.ModuleUse
import ValueShell.Proofs.Termination.Comes
import ValueShell.Proofs.Termination.Inputs
import ValueShell.Proofs.Termination.Ends
import ValueShell.Proofs.Termination
import ValueShell.Proofs.Lexing
import ValueShell.Proofs.Forms.Logs
import ValueShell.Proofs.Forms.Programs
import ValueShell.Proofs.Forms.Commands
import ValueShell.Proofs.Forms.Execution
import ValueShell.Proofs.StackTraces
import ValueShell.Proofs.Warnings
import ValueShell.Proofs.Pipelines.Relays
import ValueShell.Proofs.Pipelines.Wires
import ValueShell.Proofs.Pipelines.Line
import ValueShell.Proofs.Pipelines
import ValueShell.Proofs.Pipelines.EarlyExit
import ValueShell.Proofs.Layout
import ValueShell.Proofs.Interrupts
import ValueShell.Proofs.CallSites
import ValueShell.Proofs.CallSites.Counting
import ValueShell.Proofs.CallSites.Lowered
import ValueShell.Proofs.CallSites.Parsed
import ValueShell.Proofs.CallSites.Regions
import ValueShell.Proofs.Keys
import ValueShell.Proofs.Maps
import ValueShell.Proofs.Elements
import ValueShell.Proofs.Binding
import ValueShell.Proofs.Chunking
import ValueShell.Proofs.Durations
import ValueShell.Proofs.Rationals
import ValueShell.Proofs.Widening
import ValueShell.Proofs.Widening.Lowered
import ValueShell.Proofs.Sources
import ValueShell.Proofs.Sources.Commands
import ValueShell.Proofs.Sources.Execution
import ValueShell.Proofs.OwnSource
import ValueShell.Proofs.Locations
import ValueShell.Proofs.FunctionKeys
import ValueShell.Proofs.Loading.Search
import ValueShell.Proofs.Progress.Positions
import ValueShell.Proofs.Progress.Loops
import ValueShell.Proofs.Progress
