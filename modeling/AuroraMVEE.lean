import AuroraMVEE.Lib.Program
import AuroraMVEE.Lib.Machine
import AuroraMVEE.Lib.DList
import AuroraMVEE.Divergence
import AuroraMVEE.Containment
import AuroraMVEE.Release
import AuroraMVEE.Effects
import AuroraMVEE.Rounds
import AuroraMVEE.SharedMemory
import AuroraMVEE.Offsets
import AuroraMVEE.Descriptors
import AuroraMVEE.MappingTable
import AuroraMVEE.Requests
import AuroraMVEE.Channel
import AuroraMVEE.Identical
import AuroraMVEE.Independence
import AuroraMVEE.Settled
import AuroraMVEE.Outcomes
import AuroraMVEE.Replication
import AuroraMVEE.Counters
import AuroraMVEE.TableEdits
import AuroraMVEE.Paths
import AuroraMVEE.Holes
import AuroraMVEE.Reading
import AuroraMVEE.ReadySets
import AuroraMVEE.MappingNodes
import AuroraMVEE.Registers
import AuroraMVEE.InputCalls
import AuroraMVEE.SocketAddresses
import AuroraMVEE.SharedInput
import AuroraMVEE.Output
import AuroraMVEE.Progress
import AuroraMVEE.Parts
import AuroraMVEE.Schedules
import AuroraMVEE.Transparency
import AuroraMVEE.InRounds
import AuroraMVEE.TableHistory
import AuroraMVEE.Alarms
import AuroraMVEE.Approval
import AuroraMVEE.Endings
import AuroraMVEE.Handed
import AuroraMVEE.Twins
