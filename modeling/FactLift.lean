import FactLift.C.Composite
import FactLift.C.Kind
import FactLift.C.Print
import FactLift.C.Same
import FactLift.C.Stmt
import FactLift.C.Tree
import FactLift.C.TypeOf
import FactLift.Command.LogText
import FactLift.Command.Memory
import FactLift.Command.Options
import FactLift.Command.Run
import FactLift.Config
import FactLift.Dataflow
import FactLift.Diagnostic
import FactLift.Dictionary.Basic
import FactLift.Dictionary.Decode
import FactLift.Dictionary.Mint
import FactLift.Error
import FactLift.FactFile.Item
import FactLift.FactFile.Load
import FactLift.FactFile.Section
import FactLift.Instruction.Decode
import FactLift.Instruction.Fact
import FactLift.Instruction.Facts
import FactLift.Instruction.Journal
import FactLift.Instruction.Opcode
import FactLift.Instruction.Tags
import FactLift.Lift.Function
import FactLift.Lift.High
import FactLift.Lift.Instruction
import FactLift.Lift.Low
import FactLift.Lift.Operation
import FactLift.Lift.Operator
import FactLift.Lift.Session
import FactLift.Listing
import FactLift.Log
import FactLift.Main
import FactLift.MultiMap
import FactLift.Program
import FactLift.Proofs.C.Declarator
import FactLift.Proofs.C.IntValue
import FactLift.Proofs.C.Layout
import FactLift.Proofs.C.Placeholder
import FactLift.Proofs.C.Spelling
import FactLift.Proofs.C.Stmt
import FactLift.Proofs.C.Symbols
import FactLift.Proofs.C.UniqueReading
import FactLift.Proofs.C.Unnumbered
import FactLift.Proofs.Command.Batch
import FactLift.Proofs.Dictionary.Decode
import FactLift.Proofs.Dictionary.Growth
import FactLift.Proofs.Dictionary.HexWords
import FactLift.Proofs.Dictionary.Mint
import FactLift.Proofs.Dictionary.Rules
import FactLift.Proofs.Except
import FactLift.Proofs.FactFile.Functions
import FactLift.Proofs.FactFile.Heading
import FactLift.Proofs.FactFile.LineNumbers
import FactLift.Proofs.FactFile.Load
import FactLift.Proofs.FactFile.Numbering
import FactLift.Proofs.FactFile.Padding
import FactLift.Proofs.FactFile.TablePieces
import FactLift.Proofs.FactFile.TableText
import FactLift.Proofs.Instruction.Decode
import FactLift.Proofs.Instruction.ErrorMarks
import FactLift.Proofs.Instruction.FlowStore
import FactLift.Proofs.Instruction.KeyTable
import FactLift.Proofs.Lift.AdjacentSigns
import FactLift.Proofs.Lift.Advances
import FactLift.Proofs.Lift.ApplyForm
import FactLift.Proofs.Lift.Body
import FactLift.Proofs.Lift.CallArguments
import FactLift.Proofs.Lift.ConstantOffset
import FactLift.Proofs.Lift.Deref
import FactLift.Proofs.Lift.Edits
import FactLift.Proofs.Lift.ErrorRecords
import FactLift.Proofs.Lift.FieldSteps
import FactLift.Proofs.Lift.Function
import FactLift.Proofs.Lift.Gaps
import FactLift.Proofs.Lift.GlobalAddress
import FactLift.Proofs.Lift.Growth
import FactLift.Proofs.Lift.Independence
import FactLift.Proofs.Lift.LocalSymbols
import FactLift.Proofs.Lift.LowGaps
import FactLift.Proofs.Lift.LowLabels
import FactLift.Proofs.Lift.LowRegisters
import FactLift.Proofs.Lift.MovedPointer
import FactLift.Proofs.Lift.OffsetRun
import FactLift.Proofs.Lift.OpenPlaces
import FactLift.Proofs.Lift.Operation
import FactLift.Proofs.Lift.Operator
import FactLift.Proofs.Lift.RecordedConstant
import FactLift.Proofs.Lift.RegisterForm
import FactLift.Proofs.Lift.RegisterUse
import FactLift.Proofs.Lift.Reports
import FactLift.Proofs.Lift.ReturnedValue
import FactLift.Proofs.Lift.Run
import FactLift.Proofs.Lift.SignedOperands
import FactLift.Proofs.Lift.StackAddress
import FactLift.Proofs.Lift.Steps
import FactLift.Proofs.Lift.Tracks
import FactLift.Proofs.Lift.TwinParts
import FactLift.Proofs.Lift.Twins
import FactLift.Proofs.Lift.Value
import FactLift.Proofs.Listing
import FactLift.Proofs.MultiMap
import FactLift.Proofs.Provenance.Addresses
import FactLift.Proofs.Provenance.Facts
import FactLift.Proofs.Provenance.Kept
import FactLift.Proofs.Provenance.Mapping
import FactLift.Proofs.Provenance.Records
import FactLift.Proofs.Provenance.Resolve
import FactLift.Proofs.Record.Calls
import FactLift.Proofs.Record.Table
import FactLift.Proofs.Sym.AddressWidth
import FactLift.Proofs.Sym.Chain
import FactLift.Proofs.Sym.Exact
import FactLift.Proofs.Sym.Fields
import FactLift.Proofs.Sym.Folding
import FactLift.Proofs.Sym.NormalForm
import FactLift.Proofs.Sym.Simplify
import FactLift.Proofs.Symbols.AddressIndex
import FactLift.Proofs.Symbols.ByteExact
import FactLift.Proofs.Symbols.Containment
import FactLift.Proofs.Symbols.Displacement
import FactLift.Proofs.Symbols.KnownFields
import FactLift.Proofs.Symbols.LocalCalls
import FactLift.Proofs.Symbols.Locals
import FactLift.Proofs.Symbols.Lookups
import FactLift.Proofs.Symbols.MadeUp
import FactLift.Proofs.Symbols.Paths
import FactLift.Proofs.Symbols.Search
import FactLift.Proofs.Symbols.Sizes
import FactLift.Proofs.Symbols.Widening
import FactLift.Proofs.Text.Hex
import FactLift.Proofs.Text.Integer
import FactLift.Proofs.Text.Lines
import FactLift.Proofs.Word
import FactLift.Provenance.Basic
import FactLift.Provenance.Graph
import FactLift.Provenance.Mapping
import FactLift.Record.Basic
import FactLift.Record.Table
import FactLift.Roster
import FactLift.Sym.Basic
import FactLift.Sym.Fold
import FactLift.Sym.Interval
import FactLift.Sym.Op
import FactLift.Sym.Simplify
import FactLift.Symbols.Closure
import FactLift.Symbols.Globals
import FactLift.Symbols.Locals
import FactLift.Symbols.Navigate
import FactLift.Target
import FactLift.Text.Blank
import FactLift.Text.Combining
import FactLift.Text.Decimal
import FactLift.Text.Hex
import FactLift.Text.Integer
import FactLift.Text.Quoted
import FactLift.Text.Unprintable
import FactLift.Word
