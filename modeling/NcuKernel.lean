import NcuKernel.Library.Runs
import NcuKernel.Library.RadixWalk
import NcuKernel.Library.Bytes
import NcuKernel.Library.Counting
import NcuKernel.Library.Hierarchy
import NcuKernel.Paging.Tables
import NcuKernel.Paging.AddressTransform
import NcuKernel.Paging.PathEnds
import NcuKernel.Paging.Sharing
import NcuKernel.Paging.UntestedEntries
import NcuKernel.Paging.PhysicalAddresses
import NcuKernel.Paging.WriteBack
import NcuKernel.Paging.Lengths
import NcuKernel.Paging.Disclosure
import NcuKernel.Sched.Task
import NcuKernel.Sched.Uclamp
import NcuKernel.Sched.Setscheduler
import NcuKernel.Sched.Fork
import NcuKernel.Sched.System
import NcuKernel.Sched.Lifecycle
import NcuKernel.Sched.Ranges
import NcuKernel.Sched.Coherence
import NcuKernel.Sched.Objective
import NcuKernel.Sched.EndToEnd
import NcuKernel.Sched.ResetOnFork
import NcuKernel.Sched.Designs
import NcuKernel.Sched.Permission
import NcuKernel.Sched.Influence
import NcuKernel.Sched.Conservative
import NcuKernel.Wakeup.Protocol
import NcuKernel.Wakeup.Outline
import NcuKernel.Wakeup.Steps
import NcuKernel.Wakeup.Moves
import NcuKernel.Wakeup.Safety
import NcuKernel.Wakeup.Accounting
import NcuKernel.Wakeup.Exit
import NcuKernel.Wakeup.Progress
import NcuKernel.Wakeup.Waiting
import NcuKernel.Wakeup.Refinement
import NcuKernel.Uclamp.Buckets
import NcuKernel.Uclamp.System
import NcuKernel.Uclamp.Accounting
import NcuKernel.Uclamp.Aggregate
import NcuKernel.Uclamp.Groups
import NcuKernel.Uclamp.Fresh
import NcuKernel.CoreSched.RqLock
import NcuKernel.CoreSched.RqLockRoles
import NcuKernel.CoreSched.RqLockSwitch
import NcuKernel.CoreSched.RqLockMasks
import NcuKernel.CoreSched.RqLockSafety
