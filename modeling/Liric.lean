import Liric.Guarantees.Aarch64Calls
import Liric.Guarantees.Aarch64Code
import Liric.Guarantees.Aarch64Frame
import Liric.Guarantees.Aarch64Helpers
import Liric.Guarantees.Aarch64Integers
import Liric.Guarantees.Aarch64Places
import Liric.Guarantees.AggregateCode
import Liric.Guarantees.AggregateLayout
import Liric.Guarantees.AggregateMoves
import Liric.Guarantees.AggregateWidths
import Liric.Guarantees.AllocaAlignment
import Liric.Guarantees.ArchiveSelection
import Liric.Guarantees.BlobImportBounds
import Liric.Guarantees.BlobRoundTrip
import Liric.Guarantees.BlockNumbers
import Liric.Guarantees.BlockRuns
import Liric.Guarantees.BlockTables
import Liric.Guarantees.BoundJumps
import Liric.Guarantees.CollisionFlag
import Liric.Guarantees.CollisionRuns
import Liric.Guarantees.CompileRetry
import Liric.Guarantees.ConstantAddresses
import Liric.Guarantees.DumpedNames
import Liric.Guarantees.ElfExecutable
import Liric.Guarantees.ElfRelocatable
import Liric.Guarantees.FinalizedViews
import Liric.Guarantees.FiniteLayouts
import Liric.Guarantees.FixedTables
import Liric.Guarantees.Float128Addition
import Liric.Guarantees.Float128Conversions
import Liric.Guarantees.Float128Division
import Liric.Guarantees.Float128Integers
import Liric.Guarantees.Float128Limbs
import Liric.Guarantees.Float128Multiplication
import Liric.Guarantees.Float128Order
import Liric.Guarantees.Float128Pack
import Liric.Guarantees.FrameSlots
import Liric.Guarantees.FunctionCollisions
import Liric.Guarantees.GlobalAlignment
import Liric.Guarantees.GlobalNames
import Liric.Guarantees.IntegerWidths
import Liric.Guarantees.InvokeLines
import Liric.Guarantees.IrSemantics
import Liric.Guarantees.JitData
import Liric.Guarantees.JitLookup
import Liric.Guarantees.JitPatching
import Liric.Guarantees.JitRelocRuns
import Liric.Guarantees.KeywordTable
import Liric.Guarantees.LazyMaterialize
import Liric.Guarantees.LazyReady
import Liric.Guarantees.Leb128Readers
import Liric.Guarantees.LexedText
import Liric.Guarantees.LlSymbols
import Liric.Guarantees.MachoRelocatable
import Liric.Guarantees.MaterializeCache
import Liric.Guarantees.ModuleLookups
import Liric.Guarantees.ModuleMerge
import Liric.Guarantees.NameTexts
import Liric.Guarantees.NaturalAlignment
import Liric.Guarantees.ParserFrames
import Liric.Guarantees.PeepholeFailures
import Liric.Guarantees.PeepholeLanes
import Liric.Guarantees.PeepholeRewrites
import Liric.Guarantees.PeepholeWords
import Liric.Guarantees.RelocNames
import Liric.Guarantees.RiscvCalls
import Liric.Guarantees.RiscvCode
import Liric.Guarantees.RiscvIntegers
import Liric.Guarantees.RiscvMachine
import Liric.Guarantees.RuntimeArchive
import Liric.Guarantees.RuntimeMerge
import Liric.Guarantees.SelectOperands
import Liric.Guarantees.SessionBuilding
import Liric.Guarantees.SessionInterleaving
import Liric.Guarantees.SessionRuns
import Liric.Guarantees.Sha256
import Liric.Guarantees.SwitchLowering
import Liric.Guarantees.SwitchMeaning
import Liric.Guarantees.SymbolCaches
import Liric.Guarantees.SymbolInterning
import Liric.Guarantees.TokenTiling
import Liric.Guarantees.TypeTexts
import Liric.Guarantees.TypeTokens
import Liric.Guarantees.WasmCalls
import Liric.Guarantees.WasmConversion
import Liric.Guarantees.WasmDecodeBounds
import Liric.Guarantees.X8664Code
import Liric.Guarantees.X8664Encoding
import Liric.Guarantees.X8664Memory
import Liric.Guarantees.X8664Values
import Liric.Lib.A64
import Liric.Lib.AddressFields
import Liric.Lib.BoundedEmit
import Liric.Lib.Buffer
import Liric.Lib.Bytes
import Liric.Lib.ChainedIndex
import Liric.Lib.Decimal
import Liric.Lib.Elf64
import Liric.Lib.Folds
import Liric.Lib.GrowingGraph
import Liric.Lib.HashSwitch
import Liric.Lib.InstructionFields
import Liric.Lib.InterchangeFormat
import Liric.Lib.Leb128
import Liric.Lib.LinearProbe
import Liric.Lib.ListScan
import Liric.Lib.LowBits
import Liric.Lib.MachO64
import Liric.Lib.Padding
import Liric.Lib.PrefixCode
import Liric.Lib.RoundToEven
import Liric.Lib.Runs
import Liric.Lib.SequentialMoves
import Liric.Lib.Sha256
import Liric.Lib.StackFrame
import Liric.Lib.Staged
import Liric.Lib.StateTriple
import Liric.Lib.TextTiling
import Liric.Lib.ThreeWay
import Liric.Lib.TwoRuns
import Liric.Lib.X64
import Liric.Lib.X64Decode
import Liric.Source.Compat.Archive
import Liric.Source.Compat.LlSymbols
import Liric.Source.Float128
import Liric.Source.Ir.Collisions
import Liric.Source.Ir.Dump
import Liric.Source.Ir.DumpNames
import Liric.Source.Ir.Finalize
import Liric.Source.Ir.Merge
import Liric.Source.Ir.Module
import Liric.Source.Ir.Operands
import Liric.Source.Ir.Peephole
import Liric.Source.Ir.Symbols
import Liric.Source.Ir.Types
import Liric.Source.Jit.Modules
import Liric.Source.Jit.Patching
import Liric.Source.Jit.Relocs
import Liric.Source.Jit.Signature
import Liric.Source.Jit.Symbols
import Liric.Source.Ll.Blocks
import Liric.Source.Ll.FunctionBody
import Liric.Source.Ll.Functions
import Liric.Source.Ll.Globals
import Liric.Source.Ll.Lexer
import Liric.Source.Ll.Parser
import Liric.Source.Ll.Switch
import Liric.Source.Ll.TypeHeap
import Liric.Source.Object.BuildData
import Liric.Source.Object.CompileFunction
import Liric.Source.Object.Context
import Liric.Source.Object.ElfDynamic
import Liric.Source.Object.ElfExecutable
import Liric.Source.Object.ElfRelocatable
import Liric.Source.Object.MachoRelocatable
import Liric.Source.Object.ModuleLookup
import Liric.Source.RuntimeArchive
import Liric.Source.Session.BlobPackage
import Liric.Source.Session.BlobReads
import Liric.Source.Session.Building
import Liric.Source.Session.Direct
import Liric.Source.Session.Modes
import Liric.Source.Session.RuntimeMerge
import Liric.Source.Sha256
import Liric.Source.Target.Aarch64
import Liric.Source.Target.Aarch64Emit
import Liric.Source.Target.Aarch64Frame
import Liric.Source.Target.Riscv64
import Liric.Source.Target.X8664Encode
import Liric.Source.Target.X8664Frame
import Liric.Source.Target.X8664Jumps
import Liric.Source.Target.X8664Moves
import Liric.Source.Target.X8664Operands
import Liric.Source.Target.X8664Stream
import Liric.Source.Wasm.Decode
import Liric.Source.Wasm.ToIr
