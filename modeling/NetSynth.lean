import NetSynth.Logic.BitsText
import NetSynth.Names
import NetSynth.Diagnostic.Render
import NetSynth.Netlist.Connectivity
import NetSynth.Synthesis.Run
import NetSynth.Settings.Load
import NetSynth.Proofs.Numbers
import NetSynth.Proofs.Primitives
import NetSynth.Proofs.Growth
import NetSynth.Proofs.Discipline
import NetSynth.Proofs.Disciplined
import NetSynth.Proofs.SingleDriver
import NetSynth.Proofs.Contract
import NetSynth.Proofs.Commands
import NetSynth.Proofs.Accepted
import NetSynth.Proofs.TypedRuns
import NetSynth.Proofs.Typing
import NetSynth.Proofs.TypedRules
import NetSynth.Proofs.TypedComposites
import NetSynth.Proofs.TypeSoundness
import NetSynth.Proofs.Meaning
import NetSynth.Proofs.Packing
import NetSynth.Proofs.ValuedRuns
import NetSynth.Proofs.ValuedRules
import NetSynth.Proofs.ValuedComposites
import NetSynth.Proofs.Order
import NetSynth.Proofs.ValueSoundness
import NetSynth.Proofs.Acyclicity
import NetSynth.Proofs.Reports
import NetSynth.Proofs.Supported
import NetSynth.Proofs.MemoryReads
import NetSynth.Proofs.ErrorLimit
import NetSynth.Proofs.FlowGraph
import NetSynth.Proofs.ShiftAmounts
import NetSynth.Proofs.Mirror
import NetSynth.Proofs.MirroredRuns
import NetSynth.Proofs.MirroredRules
import NetSynth.Proofs.OrderIndependence
import NetSynth.Proofs.Appending
import NetSynth.Proofs.Cone
import NetSynth.Proofs.LocalNames
import NetSynth.Proofs.DeclaredNames
import NetSynth.Proofs.NetNames
import NetSynth.Proofs.MemoryCone
import NetSynth.Proofs.RealPins
import NetSynth.Proofs.RealRuns
import NetSynth.Proofs.RealRules
import NetSynth.Proofs.RealComposites
import NetSynth.Proofs.RealNets
import NetSynth.Proofs.Generations
import NetSynth.Proofs.DeviceRequests
import NetSynth.Proofs.Additions
import NetSynth.Proofs.Resizing
import NetSynth.Proofs.ConstantShifts
import NetSynth.Proofs.PartSelects
import NetSynth.Proofs.Comparisons
import NetSynth.Proofs.Collecting
import NetSynth.Proofs.CallArguments
import NetSynth.Proofs.Addresses
import NetSynth.Proofs.DeclaredMemories
import NetSynth.Proofs.ConstantIndexes
import NetSynth.Proofs.ConeTraversal
import NetSynth.Proofs.TextRows
import NetSynth.Proofs.LineTable
import NetSynth.Proofs.LineCoordinates
import NetSynth.Proofs.LineBounds
import NetSynth.Proofs.ShownSpans
import NetSynth.Proofs.Underlines
import NetSynth.Proofs.BitsRoundTrip
import NetSynth.Proofs.CheckedBits
import NetSynth.Proofs.Integers
import NetSynth.Proofs.PinTables
