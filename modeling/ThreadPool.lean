import ThreadPool.Lib.Machine
import ThreadPool.Lib.Census
import ThreadPool.Lib.WorkQueue
import ThreadPool.Lib.Wakeup
import ThreadPool.Lib.Guard
import ThreadPool.Lib.Snapshot
import ThreadPool.Lib.Interpolation
import ThreadPool.Lib.Rounding
import ThreadPool.Lib.Loop
import ThreadPool.Lib.Timespec
import ThreadPool.Lib.Storage
import ThreadPool.Lib.Ledger
import ThreadPool.Lib.Fair
import ThreadPool.Lib.Crew
import ThreadPool.Lib.Promise
import ThreadPool.Pthread.Thread
import ThreadPool.Pthread.Sleep
import ThreadPool.Pthread.SchedulingPolicy
import ThreadPool.Pthread.Lifecycle
import ThreadPool.Pthread.Moves
import ThreadPool.Pthread.Tickets
import ThreadPool.Pthread.Release
import ThreadPool.Pthread.Reaping
import ThreadPool.Pthread.Attributes
import ThreadPool.Pthread.Completion
import ThreadPool.Pthread.Detached
import ThreadPool.Pthread.Callers
import ThreadPool.Basic
import ThreadPool.Normal.Model
import ThreadPool.Normal.Spawn
import ThreadPool.Normal.Moves
import ThreadPool.Normal.Wired
import ThreadPool.Normal.Headcount
import ThreadPool.Normal.Conservation
import ThreadPool.Normal.Wakeup
import ThreadPool.Normal.Shutdown
import ThreadPool.Normal.Draining
import ThreadPool.Normal.Accounting
import ThreadPool.Normal.Expansion
import ThreadPool.Normal.Shrinking
import ThreadPool.Normal.Progress
import ThreadPool.Normal.Extinction
import ThreadPool.Normal.Slots
import ThreadPool.Normal.Restart
import ThreadPool.Normal.Submit
import ThreadPool.Normal.Closing
import ThreadPool.Normal.Dequeues
import ThreadPool.Normal.MonitorPass
import ThreadPool.Normal.Starts
import ThreadPool.Normal.StartRace
import ThreadPool.Normal.Storage
import ThreadPool.Numa.Binding
import ThreadPool.Numa.Model
import ThreadPool.Numa.Moves
import ThreadPool.Numa.Wired
import ThreadPool.Numa.Conservation
import ThreadPool.Numa.Locality
import ThreadPool.Numa.Shutdown
import ThreadPool.Numa.Headcount
import ThreadPool.Numa.Draining
import ThreadPool.Numa.Wakeup
import ThreadPool.Numa.Shrinking
import ThreadPool.Numa.Registration
import ThreadPool.Numa.Accounting
import ThreadPool.Numa.Restart
import ThreadPool.Numa.Dequeues
import ThreadPool.Numa.Expansion
import ThreadPool.Numa.MonitorPass
import ThreadPool.Numa.Turnover
import ThreadPool.Numa.Progress
import ThreadPool.Numa.Submit
import ThreadPool.Numa.TaskCount
import ThreadPool.Numa.Memory
import ThreadPool.Numa.Migration
import ThreadPool.Numa.AddressSpace
import ThreadPool.Numa.Topology
import ThreadPool.Numa.Affinity
import ThreadPool.Numa.Nesting
import ThreadPool.Deadlock
import ThreadPool.Dequeues
import ThreadPool.MonitorPass
import ThreadPool.FailedStart
import ThreadPool.Interval
import ThreadPool.Pthread.Deadline
import ThreadPool.Pthread.PredicateWait
