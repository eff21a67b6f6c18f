import TagExchange.CStrings.Block
import TagExchange.CStrings.Decimal
import TagExchange.CStrings.Numerals
import TagExchange.CStrings.Yields
import TagExchange.Concurrency.Broadcast
import TagExchange.Concurrency.Census
import TagExchange.Concurrency.GracePeriods
import TagExchange.Concurrency.HandOff
import TagExchange.Concurrency.Past
import TagExchange.Concurrency.Rcu
import TagExchange.Concurrency.Refinement
import TagExchange.Concurrency.Runs
import TagExchange.Concurrency.Settling
import TagExchange.Concurrency.Tally
import TagExchange.Concurrency.Times
import TagExchange.Concurrency.Workload
import TagExchange.Memory.Heap
import TagExchange.Memory.Ownership
import TagExchange.Model.Allocations
import TagExchange.Model.CallerMoves
import TagExchange.Model.Calls
import TagExchange.Model.CharDevice
import TagExchange.Model.Data
import TagExchange.Model.Debts
import TagExchange.Model.DeviceBlocks
import TagExchange.Model.DeviceMoves
import TagExchange.Model.DeviceNumbers
import TagExchange.Model.DeviceText
import TagExchange.Model.Effects
import TagExchange.Model.Frames
import TagExchange.Model.Kernel
import TagExchange.Model.Machine
import TagExchange.Model.Mounting
import TagExchange.Model.Oopses
import TagExchange.Model.Overruns
import TagExchange.Model.PageWalk
import TagExchange.Model.ReceiveMoves
import TagExchange.Model.Routines
import TagExchange.Model.StepsLeft
import TagExchange.Model.Stores
import TagExchange.Model.SyscallTable
import TagExchange.Model.TableReads
import TagExchange.Model.TagCtl
import TagExchange.Model.TagGet
import TagExchange.Model.TagReceive
import TagExchange.Model.TagSend
import TagExchange.Model.Texts
import TagExchange.Model.Turns
import TagExchange.Naming.Registry
import TagExchange.Paging.Walk
import TagExchange.Properties.Answers
import TagExchange.Properties.AwakeAll
import TagExchange.Properties.CallLengths
import TagExchange.Properties.Confinement
import TagExchange.Properties.Counters
import TagExchange.Properties.CreationBlocks
import TagExchange.Properties.Creations
import TagExchange.Properties.Deliveries
import TagExchange.Properties.Descriptors
import TagExchange.Properties.DeviceCells
import TagExchange.Properties.DeviceExists
import TagExchange.Properties.DeviceLocks
import TagExchange.Properties.DeviceNumbers
import TagExchange.Properties.DeviceTruth
import TagExchange.Properties.Erasure
import TagExchange.Properties.FailingTagGet
import TagExchange.Properties.FilesAtRest
import TagExchange.Properties.FoundBytes
import TagExchange.Properties.HeapNumbers
import TagExchange.Properties.HeapOwnership
import TagExchange.Properties.IndexSafety
import TagExchange.Properties.InitialText
import TagExchange.Properties.Integrity
import TagExchange.Properties.LateCallbacks
import TagExchange.Properties.Linearization
import TagExchange.Properties.LockDiscipline
import TagExchange.Properties.LockHandOff
import TagExchange.Properties.Marks
import TagExchange.Properties.MessageLengths
import TagExchange.Properties.MessageOrder
import TagExchange.Properties.ModuleCount
import TagExchange.Properties.MountFailures
import TagExchange.Properties.MountRoundTrip
import TagExchange.Properties.NoLostMessage
import TagExchange.Properties.OpenTag
import TagExchange.Properties.OwnerOnly
import TagExchange.Properties.PageWalk
import TagExchange.Properties.Permissions
import TagExchange.Properties.PieceReads
import TagExchange.Properties.Pointers
import TagExchange.Properties.PrintedTables
import TagExchange.Properties.PrintedWidth
import TagExchange.Properties.Printing
import TagExchange.Properties.PrivateCreation
import TagExchange.Properties.ReadSections
import TagExchange.Properties.ReadyCalls
import TagExchange.Properties.References
import TagExchange.Properties.Refusals
import TagExchange.Properties.Registered
import TagExchange.Properties.RegistryRefinement
import TagExchange.Properties.RegistrySteps
import TagExchange.Properties.Retained
import TagExchange.Properties.Sequential
import TagExchange.Properties.Sessions
import TagExchange.Properties.Settling
import TagExchange.Properties.SlotRegistry
import TagExchange.Properties.StalePointers
import TagExchange.Properties.TableReads
import TagExchange.Properties.TableSearch
import TagExchange.Properties.TextPublication
import TagExchange.Properties.Waiters
import TagExchange.Properties.Watertight
import TagExchange.Protocol.Callbacks
import TagExchange.Protocol.Invariant
import TagExchange.Protocol.Preservation
import TagExchange.Protocol.Registry
import TagExchange.Protocol.Safety
import TagExchange.Protocol.Simulation
import TagExchange.Protocol.Views
import TagExchange.Tables.Patches
import TagExchange.Tables.Search
