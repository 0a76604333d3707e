import Netlist.Main
import Netlist.Proofs.Failure
import Netlist.Proofs.Refinement
import Netlist.Proofs.Moves
import Netlist.Proofs.Rewind
import Netlist.Proofs.Shape
import Netlist.Proofs.Construction
import Netlist.Proofs.Queue
import Netlist.Proofs.Names
import Netlist.Proofs.VerilogText
import Netlist.Proofs.Description
import Netlist.Proofs.DeclaredWidths
import Netlist.Proofs.BitVectors
import Netlist.Proofs.Count
import Netlist.Proofs.Strictness
import Netlist.Proofs.Nesting
import Netlist.Proofs.ExactIntegers
import Netlist.Proofs.MemoryPorts
import Netlist.Proofs.OperandWidths
import Netlist.Proofs.Resettling
import Netlist.Proofs.Expressions
import Netlist.Proofs.RightSides
import Netlist.Proofs.LockStep
import Netlist.Proofs.LoweredMeaning
import Netlist.Proofs.AbsorbedProxies
import Netlist.Proofs.ControlNames
import Netlist.Proofs.EmptyMemories
import Netlist.Proofs.MissingReport
import Netlist.Proofs.OrderChoice
import Netlist.Proofs.ReportedCycle
import Netlist.Proofs.RecursiveSearch
import Netlist.Proofs.Growth
import Netlist.Proofs.Feedback
import Netlist.Proofs.DependenceAnalysis
import Netlist.Proofs.Noninterference
import Netlist.Proofs.DistinctNames
import Netlist.Proofs.ConstantChains
import Netlist.Proofs.InitialValues
import Netlist.Proofs.LeastNames
import Netlist.Proofs.PortNames
import Netlist.Proofs.DrivenOutputs
import Netlist.Proofs.RefusedOutputs
import Netlist.Proofs.DesignGraph
import Netlist.Proofs.PartialMaps
import Netlist.Proofs.SizedLiterals
import Netlist.Proofs.QuotedLabels
