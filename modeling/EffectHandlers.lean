import EffectHandlers.Action
import EffectHandlers.Capability
import EffectHandlers.Chain
import EffectHandlers.Failure
import EffectHandlers.Handler.Basic
import EffectHandlers.Handler.Entries
import EffectHandlers.Handler.Nest
import EffectHandlers.Handler.Store
import EffectHandlers.Handler.Terminal
import EffectHandlers.Kind
import EffectHandlers.Pipeline
import EffectHandlers.Proofs.Abiding
import EffectHandlers.Proofs.Aloof
import EffectHandlers.Proofs.Arrangement
import EffectHandlers.Proofs.Associativity
import EffectHandlers.Proofs.Behaviour
import EffectHandlers.Proofs.Blindness
import EffectHandlers.Proofs.ChainSafety
import EffectHandlers.Proofs.Concurrence
import EffectHandlers.Proofs.Console
import EffectHandlers.Proofs.Constructed
import EffectHandlers.Proofs.Containment
import EffectHandlers.Proofs.Continued
import EffectHandlers.Proofs.Correspondence
import EffectHandlers.Proofs.Course
import EffectHandlers.Proofs.Data
import EffectHandlers.Proofs.Declared
import EffectHandlers.Proofs.DirectProgram
import EffectHandlers.Proofs.DirectRun
import EffectHandlers.Proofs.DirectStyle
import EffectHandlers.Proofs.Discipline
import EffectHandlers.Proofs.Discipline.Calls
import EffectHandlers.Proofs.Discipline.Handlers
import EffectHandlers.Proofs.Discipline.Programs
import EffectHandlers.Proofs.Discipline.Scripts
import EffectHandlers.Proofs.Dispatch
import EffectHandlers.Proofs.Executions
import EffectHandlers.Proofs.Fitting
import EffectHandlers.Proofs.Frame
import EffectHandlers.Proofs.Growth
import EffectHandlers.Proofs.Heeding
import EffectHandlers.Proofs.Holding
import EffectHandlers.Proofs.Identity
import EffectHandlers.Proofs.InStep
import EffectHandlers.Proofs.InTurn
import EffectHandlers.Proofs.Interleaving
import EffectHandlers.Proofs.Isolation
import EffectHandlers.Proofs.Keeping
import EffectHandlers.Proofs.Kept
import EffectHandlers.Proofs.KeyedStore
import EffectHandlers.Proofs.Likeness
import EffectHandlers.Proofs.Link
import EffectHandlers.Proofs.Link.Items
import EffectHandlers.Proofs.Link.Shapes
import EffectHandlers.Proofs.Logging
import EffectHandlers.Proofs.Manifest
import EffectHandlers.Proofs.Meaning
import EffectHandlers.Proofs.Mirror
import EffectHandlers.Proofs.Moment
import EffectHandlers.Proofs.Naming
import EffectHandlers.Proofs.Naming.Fields
import EffectHandlers.Proofs.Naming.Items
import EffectHandlers.Proofs.Naming.Reading
import EffectHandlers.Proofs.Naming.Text
import EffectHandlers.Proofs.Offerings
import EffectHandlers.Proofs.Probed
import EffectHandlers.Proofs.Proceeding
import EffectHandlers.Proofs.Protocol
import EffectHandlers.Proofs.PureHandlers
import EffectHandlers.Proofs.Rearrangement
import EffectHandlers.Proofs.Recipe
import EffectHandlers.Proofs.Records
import EffectHandlers.Proofs.Reference
import EffectHandlers.Proofs.Regime
import EffectHandlers.Proofs.Requirements
import EffectHandlers.Proofs.Resumption
import EffectHandlers.Proofs.Retracing
import EffectHandlers.Proofs.Returning
import EffectHandlers.Proofs.RunFree
import EffectHandlers.Proofs.RunLog
import EffectHandlers.Proofs.Sameness
import EffectHandlers.Proofs.Sequencing
import EffectHandlers.Proofs.Served
import EffectHandlers.Proofs.Shelves
import EffectHandlers.Proofs.Sparing
import EffectHandlers.Proofs.StandIn
import EffectHandlers.Proofs.StateLaws
import EffectHandlers.Proofs.StepRecords
import EffectHandlers.Proofs.TailResumption
import EffectHandlers.Proofs.Transcript
import EffectHandlers.Proofs.Transparency
import EffectHandlers.Proofs.Twin
import EffectHandlers.Proofs.Uses
import EffectHandlers.Proofs.Variation
import EffectHandlers.Proofs.Variation.Calls
import EffectHandlers.Proofs.Variation.Chains
import EffectHandlers.Proofs.Variation.Drives
import EffectHandlers.Proofs.Variation.Expressions
import EffectHandlers.Proofs.Variation.Handlers
import EffectHandlers.Proofs.Variation.Laws
import EffectHandlers.Proofs.Variation.Library
import EffectHandlers.Proofs.Variation.Making
import EffectHandlers.Proofs.Variation.Routines
import EffectHandlers.Proofs.Variation.Runs
import EffectHandlers.Proofs.Variation.Statements
import EffectHandlers.Proofs.Variation.Values
import EffectHandlers.Proofs.Variation.Worlds
import EffectHandlers.Proofs.Watch
import EffectHandlers.Run
import EffectHandlers.Script.Data
import EffectHandlers.Script.Eval
import EffectHandlers.Script.Expr
import EffectHandlers.Script.Library
import EffectHandlers.Script.Replay
import EffectHandlers.Script.Routine
import EffectHandlers.Session
import EffectHandlers.Text.Decimal
import EffectHandlers.Text.FieldSpec
import EffectHandlers.Text.Printable
import EffectHandlers.Text.Quoted
import EffectHandlers.Text.Template
import EffectHandlers.Value
import EffectHandlers.Value.Equality
import EffectHandlers.Value.Equality.Lemmas
import EffectHandlers.Value.Items
import EffectHandlers.Value.Mapping
import EffectHandlers.Value.Sorting
import EffectHandlers.Value.Template
import EffectHandlers.Value.Text
import EffectHandlers.World
