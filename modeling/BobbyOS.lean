import BobbyOS.Machine.MemorySafety
import BobbyOS.Machine.Processors
import BobbyOS.Machine.ExceptionLevel
import BobbyOS.Machine.TrapPoint
import BobbyOS.Machine.UserIsolation
import BobbyOS.Machine.Confinement
import BobbyOS.Machine.ZeroRegister
import BobbyOS.Machine.Tunnel
import BobbyOS.Kernel.TrapTransparency
import BobbyOS.Kernel.HeapRelease
import BobbyOS.Kernel.HeapRequests
import BobbyOS.Kernel.HeapGrowth
import BobbyOS.Programs.Startup
import BobbyOS.Kernel.ForkCopy
import BobbyOS.Kernel.ProcessTable
import BobbyOS.Kernel.TLBCoherence
import BobbyOS.Kernel.HeapAccesses
import BobbyOS.Network.Wakeups
import BobbyOS.Network.Boosts
import BobbyOS.Network.CommandOrder
import BobbyOS.Network.SendStream
import BobbyOS.Network.Quanta
import BobbyOS.Network.Slicing
import BobbyOS.Network.Ownership
import BobbyOS.Kernel.SegmentedPageTable
import BobbyOS.Loader.KernelLoader
import BobbyOS.Network.LoadKernel
import BobbyOS.Machine.DecodeCache
import BobbyOS.Programs.HeapCopies
import BobbyOS.Machine.ControlTransfer
import BobbyOS.Machine.HostSafety
import BobbyOS.Machine.TunnelSafety
import BobbyOS.Kernel.TLBRefill
import BobbyOS.Kernel.WriteProtection
import BobbyOS.Kernel.UserStrings
import BobbyOS.Kernel.Refusals
import BobbyOS.Kernel.TrapRefusals
import BobbyOS.Kernel.MemoryWrites
import BobbyOS.Kernel.FaultContainment
import BobbyOS.Kernel.Delivery
import BobbyOS.Kernel.AddressSpaces
import BobbyOS.Kernel.ForkReturns
import BobbyOS.Network.Handshake
import BobbyOS.Lib.DoublyLinked
import BobbyOS.Kernel.Kstl.LinkedList
import BobbyOS.Kernel.Kstl.Chains
import BobbyOS.Kernel.Kstl.ListLoops
import BobbyOS.Kernel.Kstl.ListRuns
import BobbyOS.Kernel.Kstl.CountedMap
import BobbyOS.Kernel.Kstl.MapRuns
import BobbyOS.Kernel.Kstl.MapErase
import BobbyOS.Lib.Recency
import BobbyOS.Machine.TrackedCache
import BobbyOS.Machine.CacheRuns
import BobbyOS.Machine.ByteAccess
import BobbyOS.Kernel.TLBWords
import BobbyOS.Kernel.Kstl.Vectors
import BobbyOS.Kernel.Kstl.Strings
import BobbyOS.Kernel.Kstl.StringRuns
import BobbyOS.Lib.Numeral
import BobbyOS.Programs.Numerals
import BobbyOS.Programs.OutputStream
import BobbyOS.Lib.BitTricks
import BobbyOS.Lib.RawStorage
import BobbyOS.Kernel.Kstl.BitsetOps
import BobbyOS.Kernel.Kstl.BitsetRuns
import BobbyOS.Kernel.Kstl.VectorCapacity
import BobbyOS.Kernel.Kstl.VectorStorage
import BobbyOS.Kernel.Kstl.VectorOps
import BobbyOS.Kernel.Kstl.VectorRuns
import BobbyOS.Machine.Program
import BobbyOS.Machine.FrameMap
import BobbyOS.Machine.Simulation
import BobbyOS.Kernel.Bystanders
import BobbyOS.Kernel.UserEntries
import BobbyOS.Kernel.SparedMemory
import BobbyOS.Kernel.UserMemory
import BobbyOS.Kernel.Answers
import BobbyOS.Lib.Turns
import BobbyOS.Network.FirstLevel
import BobbyOS.Kernel.Fairness
import BobbyOS.Kernel.SystemRuns
import BobbyOS.Kernel.RequestLog
import BobbyOS.Kernel.FileSessions
import BobbyOS.Kernel.MachineTunnel
import BobbyOS.Kernel.HostFiles
