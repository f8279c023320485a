import Uvcc.Machine.Trace
import Uvcc.Machine.Simulation
import Uvcc.Memory.Alignment
import Uvcc.Memory.Owners
import Uvcc.Memory.Layout
import Uvcc.Memory.ByteOrder
import Uvcc.Counting.Ledger
import Uvcc.Counting.Holding
import Uvcc.Counting.Slots
import Uvcc.Counting.RefCount
import Uvcc.Values.Counts
import Uvcc.Values.Instances
import Uvcc.Buffer.Placement
import Uvcc.Buffer.ReadBuffers
import Uvcc.Buffer.Sink
import Uvcc.Io.CommandTable
import Uvcc.Io.ReadCompletion
import Uvcc.Io.ReadOffsets
import Uvcc.Io.ReadLock
import Uvcc.Io.ReadReferences
import Uvcc.Io.VoidHandle
import Uvcc.Io.PipeName
import Uvcc.File.InFlight
import Uvcc.File.ReadChain
import Uvcc.File.Descriptor
import Uvcc.File.ReadOffsets
import Uvcc.File.StopRace
import Uvcc.File.WriteQueue
import Uvcc.File.Position
import Uvcc.File.Paths
import Uvcc.Loop.Registered
import Uvcc.Loop.Teardown
import Uvcc.Requests.Conservation
import Uvcc.Requests.Output
import Uvcc.Requests.AddressLists
import Uvcc.Requests.Status
import Uvcc.Requests.Work
import Uvcc.Process.Stdio
import Uvcc.Process.Spawn
import Uvcc.Watchers.Async
import Uvcc.Watchers.StartStop
import Uvcc.Watchers.Timer
import Uvcc.Watchers.Signal
import Uvcc.Watchers.OneShot
import Uvcc.Utility.AnyPtr
import Uvcc.Utility.UnionStorage
import Uvcc.Utility.Endian
import Uvcc.Example.Tee
import Uvcc.Example.BufferPool
import Uvcc.Example.CountIf
import Uvcc.Example.Hello
import Uvcc.Example.CpioUv
