import UnitIndex.Main
import UnitIndex.Proofs.Decl.Consistent
import UnitIndex.Proofs.Decl.Lookup
import UnitIndex.Proofs.Decl.Described
import UnitIndex.Proofs.Decl.Chains
import UnitIndex.Proofs.Decl.TreeOrder
import UnitIndex.Proofs.Decl.Linking
import UnitIndex.Proofs.Decl.Definitions
import UnitIndex.Proofs.Decl.Naming
import UnitIndex.Proofs.Decl.Contents
import UnitIndex.Proofs.Decl.Composition
import UnitIndex.Proofs.Decl.Patterns
import UnitIndex.Proofs.Decl.Renaming
import UnitIndex.Proofs.Walk.Action
import UnitIndex.Proofs.Walk.Cancellation
import UnitIndex.Proofs.Walk.Reached
import UnitIndex.Proofs.Walk.Entering
import UnitIndex.Proofs.Walk.Log
import UnitIndex.Proofs.Walk.Callees
import UnitIndex.Proofs.Walk.Uses
import UnitIndex.Proofs.Walk.Simulation
import UnitIndex.Proofs.Walk.Thinning
import UnitIndex.Proofs.Walk.Options
import UnitIndex.Proofs.Walk.Redeclarations
import UnitIndex.Proofs.Walk.Locations
import UnitIndex.Proofs.Walk.FileEvents
import UnitIndex.Proofs.Walk.CurrentFile
import UnitIndex.Proofs.Types.Tree
import UnitIndex.Proofs.Types.Canonical
import UnitIndex.Proofs.Types.Meaning
import UnitIndex.Proofs.Types.Building
import UnitIndex.Proofs.Types.Construction
import UnitIndex.Proofs.Types.History
import UnitIndex.Proofs.Types.Termination
import UnitIndex.Proofs.Types.Trimming
import UnitIndex.Proofs.Types.Arena
import UnitIndex.Proofs.Types.Core
import UnitIndex.Proofs.Types.Desugared
import UnitIndex.Proofs.Types.Unwrapping
import UnitIndex.Proofs.Types.Unnamed
import UnitIndex.Proofs.Text.Decimal
import UnitIndex.Proofs.Text.Trimming
import UnitIndex.Proofs.Diagnostic
import UnitIndex.Proofs.Settings.NormalForm
import UnitIndex.Proofs.Json.Compact
import UnitIndex.Proofs.Fact.Lines
import UnitIndex.Proofs.Fact.FailingWriter
import UnitIndex.Proofs.Batch.Disturbances
import UnitIndex.Proofs.Batch.Schedules
import UnitIndex.Proofs.Dump.Reading
import UnitIndex.Proofs.Dump.Kinds
import UnitIndex.Proofs.Spelling.Lexing
import UnitIndex.Proofs.Spelling.Rendering
import UnitIndex.Proofs.Spelling.Specifiers
import UnitIndex.Proofs.Spelling.Declarators
import UnitIndex.Proofs.Spelling.RoundTrip
import UnitIndex.Proofs.Spelling.ScopedNames
import UnitIndex.Proofs.Spelling.Arguments
import UnitIndex.Proofs.Spelling.Unnamed
import UnitIndex.Proofs.Spelling.Cursor
import UnitIndex.Proofs.Spelling.Checked
import UnitIndex.Proofs.Spelling.Totality
import UnitIndex.Proofs.Spelling.LongestMatch
