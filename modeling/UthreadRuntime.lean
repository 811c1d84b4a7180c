import UthreadRuntime.Model.Machine
import UthreadRuntime.Model.Inversion
import UthreadRuntime.Model.Statements
import UthreadRuntime.Model.Timer
import UthreadRuntime.Model.Threads
import UthreadRuntime.Model.Startup
import UthreadRuntime.Model.Descriptors
import UthreadRuntime.Safety.Sound
import UthreadRuntime.Safety.SoundRuns
import UthreadRuntime.Safety.Frame
import UthreadRuntime.Safety.Points
import UthreadRuntime.Safety.Records
import UthreadRuntime.Safety.Marks
import UthreadRuntime.Safety.Transfers
import UthreadRuntime.Safety.HandOff
import UthreadRuntime.Safety.Solo
import UthreadRuntime.Safety.Errors
import UthreadRuntime.Safety.Crashes
import UthreadRuntime.Safety.Deserted
import UthreadRuntime.Safety.Progress
import UthreadRuntime.Safety.Sleepers
import UthreadRuntime.Safety.Pointers
import UthreadRuntime.Safety.Expiry
import UthreadRuntime.Safety.Events
import UthreadRuntime.Safety.Polling
import UthreadRuntime.Safety.EpollWait
import UthreadRuntime.Safety.Queues
import UthreadRuntime.Safety.Detached
import UthreadRuntime.Safety.Due
import UthreadRuntime.Safety.Timeouts
import UthreadRuntime.Placement.Core
import UthreadRuntime.Placement.Invariant
import UthreadRuntime.Placement.Moves
import UthreadRuntime.Placement.Cover
import UthreadRuntime.Placement.Watched
import UthreadRuntime.Placement.Refinement
import UthreadRuntime.Placement.Partition
import UthreadRuntime.Placement.Mirror
import UthreadRuntime.Placement.Blocking
import UthreadRuntime.Placement.Registrations
import UthreadRuntime.Ledger.Books
import UthreadRuntime.Ledger.Detach
import UthreadRuntime.Ledger.Ids
import UthreadRuntime.Ledger.Slots
import UthreadRuntime.Ledger.Stacks
import UthreadRuntime.Ledger.Count
import UthreadRuntime.Ledger.Values
import UthreadRuntime.Safety.HangUps
import UthreadRuntime.Safety.Waits
import UthreadRuntime.Safety.Locking
import UthreadRuntime.Safety.Modes
import UthreadRuntime.Safety.Fetched
import UthreadRuntime.Safety.Passes
import UthreadRuntime.Timer.Runs
import UthreadRuntime.Timer.Flags
import UthreadRuntime.Timer.Wheel
import UthreadRuntime.Timer.Slices
import UthreadRuntime.Timer.Deadlines
import UthreadRuntime.Timer.Wiring
import UthreadRuntime.Timer.Signals
import UthreadRuntime.Timer.Links
import UthreadRuntime.Timer.Addresses
import UthreadRuntime.Hook.Chain
import UthreadRuntime.Hook.Streams
import UthreadRuntime.Hook.Vectors
import UthreadRuntime.Hook.Stalls
import UthreadRuntime.Hook.OneShot
import UthreadRuntime.Hook.Calls
import UthreadRuntime.Hook.Followed
import UthreadRuntime.Switch.Machine
import UthreadRuntime.Switch.Runs
import UthreadRuntime.Trees.Histories
import UthreadRuntime.Trees.Walks
import UthreadRuntime.Trees.Lockstep
import UthreadRuntime.Trees.Phase
import UthreadRuntime.Safety.Served
