import Lowering.Tree.Basic
import Lowering.Tree.Equality
import Lowering.Tree.Kind
import Lowering.Tree.Scoping
import Lowering.Tree.Mapper
import Lowering.Tree.Collector
import Lowering.Tree.Traversal
import Lowering.Tree.Walk
import Lowering.Tree.Render
import Lowering.Text.Invisible
import Lowering.Text.Quoted
import Lowering.Hook
import Lowering.Scope.Names
import Lowering.Scope.Access
import Lowering.Scope.Capture
import Lowering.Stage.Declaration
import Lowering.Stage.Constructor
import Lowering.Stage.Property
import Lowering.Stage.GlobalName
import Lowering.Stage.BoxedName
import Lowering.Stage.Closure
import Lowering.Stage.Application
import Lowering.Pipeline
import Lowering.Log
import Lowering.Json.Fault
import Lowering.Json.Scan
import Lowering.Json.StringBody
import Lowering.Json.Double
import Lowering.Json.Numeral
import Lowering.Json.Skip
import Lowering.Json.Schema
import Lowering.Json.Datum
import Lowering.Json.Scalar
import Lowering.Json.Reader
import Lowering.Json.Writer
import Lowering.Json.InfoFormat
import Lowering.Json.Encode
import Lowering.Json.Decode
import Lowering.CommandLine
import Lowering.Main
import Lowering.Proofs.Mapping
import Lowering.Proofs.FreeNames
import Lowering.Proofs.BoxedScope
import Lowering.Proofs.TopLevel
import Lowering.Proofs.ClosedFunctions
import Lowering.Proofs.Accesses
import Lowering.Proofs.AccessedNames
import Lowering.Proofs.BlockEvents
import Lowering.Proofs.Blocks
import Lowering.Proofs.BoxedAccesses
import Lowering.Proofs.BoxedBlocks
import Lowering.Proofs.CaptureByValue
import Lowering.Proofs.Form
import Lowering.Proofs.CoreForm
import Lowering.Proofs.Evaluation
import Lowering.Proofs.Conversion
import Lowering.Proofs.Simulation.World
import Lowering.Proofs.Simulation.Context
import Lowering.Proofs.Simulation.Entry
import Lowering.Proofs.Simulation.Boxes
import Lowering.Proofs.Simulation.Body
import Lowering.Proofs.Simulation.Admits
import Lowering.Proofs.Simulation.Agree
import Lowering.Proofs.Simulation.Branch
import Lowering.Proofs.Simulation.Run
import Lowering.Proofs.Simulation.Call
import Lowering.Proofs.ClosureMeaning
import Lowering.Proofs.StageOrder
import Lowering.Proofs.Statementwise
import Lowering.Proofs.Collecting
import Lowering.Proofs.LoweredBlocks
import Lowering.Proofs.DeclaredFirst
import Lowering.Proofs.Fixing
import Lowering.Proofs.IdleStages
import Lowering.Proofs.Reentry
import Lowering.Proofs.HookCalls
import Lowering.Proofs.Composition
import Lowering.Proofs.Undoing
import Lowering.Proofs.Unboxing
import Lowering.Proofs.Lossless
import Lowering.Proofs.MappedInfos
import Lowering.Proofs.InfoIndependence
import Lowering.Proofs.Literals
import Lowering.Proofs.Commuting
import Lowering.Proofs.CallShaping
import Lowering.Proofs.Json.Scalars
import Lowering.Proofs.Json.Fitting
import Lowering.Proofs.Json.Spelling
import Lowering.Proofs.Json.Brackets
import Lowering.Proofs.Json.Reading
import Lowering.Proofs.Json.RoundTrip
import Lowering.Proofs.Headroom
import Lowering.Proofs.CommandRuns
import Lowering.Proofs.LoweredNesting
import Lowering.Proofs.Json.Skipping
import Lowering.Proofs.Json.Spells
import Lowering.Proofs.Json.Respelling
import Lowering.Proofs.Rewriting
import Lowering.Proofs.ResolvedNames
import Lowering.Proofs.SealedBoxes
import Lowering.Proofs.LexicalCaptures
import Lowering.Proofs.Idempotence
import Lowering.Proofs.GlobalExemption
import Lowering.Proofs.Places
import Lowering.Proofs.ClassVariable
import Lowering.Proofs.Reporting
import Lowering.Proofs.Json.Truncation
import Lowering.Proofs.Json.Scanning
import Lowering.Proofs.Json.Decoding
import Lowering.Proofs.Json.Acceptance
import Lowering.Proofs.Rendering.Reader
import Lowering.Proofs.Rendering.Unambiguous
import Lowering.Proofs.Recording
import Lowering.Proofs.Renaming
import Lowering.Proofs.ImportedNames
import Lowering.Proofs.Nodes
