import NcuKernel.Library.Runs
import Mathlib.Data.Fintype.Basic
import Mathlib.Tactic.Common

/-!
# The lock of a run queue

With core scheduling on, the hardware threads of one core share a single lock. Which
spinlock stands behind `rq->lock` then depends on `rq->core_enabled` and `rq->core`,
and both change while other CPUs lock and unlock: `__sched_core_flip` switches the
feature core by core, `sched_core_cpu_starting` and `sched_core_cpu_deactivate` move
the shared lock from one CPU to another.

A step is one access to a word another CPU may write: a spinlock, `core_enabled`,
`core`, the static key, the reference count, the mutex. The section between
`sched_core_lock` and `sched_core_unlock` is one step, since it runs under all the
spinlocks of a core. `__rq_lockp` reads two words. They are two steps where a thread
looks for its lock; where the answer is compared with a spinlock the thread owns, they
are one, since the section that writes them needs that spinlock. A section about another
core leaves the answer at no, and the flag of an offline CPU does not change its lock.

`__rq_lockp`, `rq_lockp`, `double_rq_unlock` and `cpu_smt_mask` are the kernel's, from
headers that are not in the repository. The order in which `rq_order_less` puts two run
queues is in the label, as is every decision of CPU hotplug; `stop_machine`, under which
a CPU dies, is the condition that nobody is between `preempt_disable` and the end of a
critical section. `synchronize_rcu` is modelled by what it is called for: nobody is left
who has read the static key as off and has no lock yet.
-/

set_option linter.style.nameCheck false

namespace NcuKernel.RqLock

open Runs

/-! ## What names a lock -/

/-- The hardware threads: the possible CPUs and those that share a core with a CPU,
each in CPU order. -/
structure Topology (C : Type*) where
  possible : List C
  siblings : C → List C
  mem_possible : ∀ c, c ∈ possible
  mem_siblings : ∀ c, c ∈ siblings c
  siblings_eq : ∀ c d, d ∈ siblings c → siblings d = siblings c
  nodup_siblings : ∀ c, (siblings c).Nodup

/-- Two hardware threads of one core. -/
def smtPair : Topology Bool where
  possible := [false, true]
  siblings _ := [false, true]
  mem_possible := by decide
  mem_siblings := by decide
  siblings_eq _ _ _ := rfl
  nodup_siblings := by decide

/-- What decides which spinlock is the lock of a run queue. -/
structure Cores (C : Type*) where
  /-- The static key `__sched_core_enabled`. -/
  schedCoreEnabled : Bool
  coreEnabled : C → Bool
  core : C → C
  /-- The CPU is in the sibling masks. -/
  smt : C → Bool
  online : C → Bool

section

variable {C : Type*} (K : Topology C) (k : Cores C)

/-- `cpu_smt_mask`. -/
def Cores.cpuSmtMask (cpu : C) : List C := (K.siblings cpu).filter k.smt

/-- `__rq_lockp`. -/
def Cores.__rqLockp (rq : C) : C := if k.coreEnabled rq then k.core rq else rq

/-- `rq_lockp`, which looks at the static key as well. -/
def Cores.rqLockp (rq : C) : C :=
  if k.schedCoreEnabled && k.coreEnabled rq then k.core rq else rq

variable [DecidableEq C]

/-- The body of `__sched_core_flip` for one core. -/
def Cores.__schedCoreFlip (enabled : Bool) (cpu : C) : Cores C :=
  { k with coreEnabled := fun t ↦
      if t ∈ k.cpuSmtMask K cpu then enabled else k.coreEnabled t }

/-- The leader that `sched_core_cpu_starting` finds. -/
def Cores.leader (cpu : C) : Option C :=
  (k.cpuSmtMask K cpu).find? fun t ↦ t ≠ cpu ∧ k.core t = t

/-- The body of `sched_core_cpu_starting`, and whether it warns. -/
def Cores.schedCoreCpuStarting (cpu : C) : Cores C × Bool :=
  if (k.cpuSmtMask K cpu).length = 1 then (k, k.core cpu ≠ cpu)
  else
    match k.leader K cpu with
    | none => (k, true)
    | some coreRq =>
        let k' := { k with core := Function.update k.core cpu coreRq }
        (k', k.core cpu ≠ cpu ∨ ¬ ∀ t ∈ k.cpuSmtMask K cpu, k'.core t = coreRq)

/-- The body of `sched_core_cpu_deactivate`, and whether it warns. -/
def Cores.schedCoreCpuDeactivate (cpu : C) : Cores C × Bool :=
  if (k.cpuSmtMask K cpu).length = 1 then (k, k.core cpu ≠ cpu)
  else if k.core cpu ≠ cpu then (k, false)
  else
    match (k.cpuSmtMask K cpu).find? (· ≠ cpu) with
    | none => (k, true)
    | some coreRq =>
        ({ k with core := fun t ↦ if t ∈ k.cpuSmtMask K cpu then coreRq else k.core t }, false)

/-- What happens to a CPU that dies: it leaves the masks, and `sched_core_cpu_dying`
makes it its own leader. -/
def Cores.schedCoreCpuDying (cpu : C) : Cores C :=
  { k with
    smt := Function.update k.smt cpu false
    online := Function.update k.online cpu false
    core := Function.update k.core cpu cpu }

end

/-! ## Threads -/

/-- What a run queue is locked for. -/
inductive Goal (C : Type*) where
  | single
  | trylock
  /-- The first lock of `double_rq_lock`; `rq2` comes next. -/
  | first (rq2 : C)
  /-- The second lock of `double_rq_lock`; `rq1` is held. -/
  | second (rq1 : C)
  deriving DecidableEq

/-- Where `raw_spin_rq_lock_nested` is. -/
inductive Stage (C : Type*) where
  /-- Preemption is off, the static key is not read yet. -/
  | entry
  /-- The key was off: waiting for `rq->__lock`. -/
  | plain
  /-- At the head of the loop, in `__rq_lockp`. -/
  | reread
  /-- `core_enabled` was on, `core` is read next. -/
  | readCore
  /-- Waiting for the spinlock that `__rq_lockp` named. -/
  | wait (lock : C)
  /-- The spinlock is taken, `__rq_lockp` is read again. -/
  | check (lock : C)
  deriving DecidableEq

/-- Who runs `sched_core_lock` on a core. -/
inductive Job (C : Type*) where
  /-- `__sched_core_flip`, with what is left of `sched_core_mask`. -/
  | flip (enabled : Bool) (mask : List C)
  | starting
  | deactivate
  deriving DecidableEq

inductive Phase (C : Type*) where
  | lock (rest : List C)
  | body
  | unlock (rest : List C)
  deriving DecidableEq

/-- Where a thread is. -/
inductive Pc (C : Type*) where
  | out
  | acquire (goal : Goal C) (rq : C) (stage : Stage C)
  /-- `double_rq_lock` has `rq1` and compares the two locks. -/
  | compare (rq1 rq2 : C)
  | holds (rq : C)
  | both (rq1 rq2 : C)
  | core (job : Job C) (cpu : C) (phase : Phase C)
  /-- `__sched_core_flip` waits for `cpus_read_lock`. -/
  | flipStart (enabled : Bool)
  | flipNext (enabled : Bool) (mask : List C)
  | flipOffline (enabled : Bool) (rest : List C)
  /-- `sched_core_get` found the count at zero and waits for the mutex. -/
  | getMutex
  | getTest
  /-- `__sched_core_enable`, before and after `static_branch_enable`. -/
  | enable
  | sync
  | getInc
  /-- `__sched_core_put` in `atomic_dec_and_mutex_lock`. -/
  | putDec
  | putMutex
  | putTest
  /-- `__sched_core_disable`, before `static_branch_disable`. -/
  | disable
  deriving DecidableEq

/-- `cpus_write_lock` is taken by nobody, for a CPU on which thread `t` works, or for a
CPU that has been deactivated and is on its way out. -/
inductive Hotplug (T C : Type*) where
  | idle
  | changing (t : T) (cpu : C)
  | leaving (cpu : C)
  deriving DecidableEq

structure State (T C : Type*) where
  cores : Cores C
  /-- The owner of `rq->__lock`. -/
  owner : C → Option T
  schedCoreCount : ℕ
  schedCoreMutex : Option T
  /-- The work item of `sched_core_put` is queued. -/
  workPending : Bool
  cpusRead : T → Bool
  hotplug : Hotplug T C
  /-- Calls of `sched_core_get` that have returned and are not put back yet. -/
  refs : ℕ
  warned : Bool
  pc : T → Pc C

variable {T C : Type*} [Fintype T] [DecidableEq T] [DecidableEq C]

namespace State

variable (s : State T C)

def goto (t : T) (pc : Pc C) : State T C := { s with pc := Function.update s.pc t pc }

def own (lock : C) (o : Option T) : State T C :=
  { s with owner := Function.update s.owner lock o }

end State

/-- Where a thread is once `rq` is locked. -/
def Goal.done (rq : C) : Goal C → Pc C
  | .single | .trylock => .holds rq
  | .first rq2 => .compare rq rq2
  | .second rq1 => .both rq1 rq

namespace State

/-- `raw_spin_lock` or `raw_spin_trylock`. -/
def spin (s : State T C) (t : T) (goal : Goal C) (lock : C) (pc : Pc C) : Option (State T C) :=
  if s.owner lock = none then some ((s.own lock (some t)).goto t pc)
  else if goal = .trylock then some (s.goto t .out)
  else none

/-- `raw_spin_rq_lock_nested` and `raw_spin_rq_trylock`. -/
def rawSpinRqLock (s : State T C) (t : T) (goal : Goal C) (rq : C) :
    Stage C → Option (State T C)
  | .entry =>
      some (s.goto t (.acquire goal rq (if s.cores.schedCoreEnabled then .reread else .plain)))
  | .plain => s.spin t goal rq (goal.done rq)
  | .reread =>
      some (s.goto t (.acquire goal rq (if s.cores.coreEnabled rq then .readCore else .wait rq)))
  | .readCore => some (s.goto t (.acquire goal rq (.wait (s.cores.core rq))))
  | .wait lock => s.spin t goal lock (.acquire goal rq (.check lock))
  | .check lock =>
      if lock = s.cores.__rqLockp rq then some (s.goto t (goal.done rq))
      else some ((s.own lock none).goto t (.acquire goal rq .reread))

/-- `raw_spin_rq_unlock`, and `double_rq_unlock` from its end. -/
def rawSpinRqUnlock (s : State T C) (t : T) : Option (State T C) :=
  match s.pc t with
  | .holds rq => some ((s.own (s.cores.rqLockp rq) none).goto t .out)
  | .both rq1 rq2 =>
      if s.cores.__rqLockp rq1 ≠ s.cores.__rqLockp rq2 then
        some ((s.own (s.cores.rqLockp rq2) none).goto t (.holds rq1))
      else some (s.goto t (.holds rq1))
  | _ => none

end State

section

variable (K : Topology C)

/-- What stands between `sched_core_lock` and `sched_core_unlock`. -/
def Cores.body (k : Cores C) (job : Job C) (cpu : C) : Cores C × Bool :=
  match job with
  | .flip enabled _ => (k.__schedCoreFlip K enabled cpu, false)
  | .starting => k.schedCoreCpuStarting K cpu
  | .deactivate => k.schedCoreCpuDeactivate K cpu

namespace State

/-- What a caller of `sched_core_lock` does after `sched_core_unlock`. -/
def afterUnlock (s : State T C) (t : T) (job : Job C) (cpu : C) : State T C :=
  match job with
  | .flip enabled mask =>
      s.goto t (.flipNext enabled (mask.filter (· ∉ s.cores.cpuSmtMask K cpu)))
  | .starting =>
      { s.goto t .out with
        cores := { s.cores with online := Function.update s.cores.online cpu true }
        hotplug := .idle }
  | .deactivate => { s.goto t .out with hotplug := .leaving cpu }

/-- `sched_core_lock`, the section under all locks of the core, `sched_core_unlock`. -/
def schedCoreLock (s : State T C) (t : T) (job : Job C) (cpu : C) :
    Phase C → Option (State T C)
  | .lock (c :: rest) =>
      if s.owner c = none then
        some ((s.own c (some t)).goto t (.core job cpu (.lock rest)))
      else none
  | .lock [] => some (s.goto t (.core job cpu .body))
  | .body =>
      some { s.goto t (.core job cpu (.unlock (s.cores.cpuSmtMask K cpu))) with
        cores := (s.cores.body K job cpu).1
        warned := s.warned || (s.cores.body K job cpu).2 }
  | .unlock (c :: rest) => some ((s.own c none).goto t (.core job cpu (.unlock rest)))
  | .unlock [] => some (s.afterUnlock K t job cpu)

end State

end

/-- The thread is past `preempt_disable` or inside a critical section. -/
def Pc.atomic : Pc C → Bool
  | .acquire .. | .compare .. | .holds _ | .both .. | .core .. => true
  | _ => false

/-- The thread has read the static key as off and has no lock yet. -/
def Pc.plain : Pc C → Bool
  | .acquire _ _ .plain => true
  | _ => false

namespace State

/-- The rest of `__sched_core_flip`. -/
def flip (K : Topology C) (s : State T C) (t : T) : Pc C → Option (State T C)
  | .flipStart enabled =>
      if s.hotplug = .idle then
        some { s.goto t (.flipNext enabled (K.possible.filter s.cores.online)) with
          cpusRead := Function.update s.cpusRead t true }
      else none
  | .flipNext enabled (cpu :: mask) =>
      some (s.goto t (.core (.flip enabled (cpu :: mask)) cpu (.lock (s.cores.cpuSmtMask K cpu))))
  | .flipNext enabled [] =>
      some (s.goto t (.flipOffline enabled (K.possible.filter (!s.cores.online ·))))
  | .flipOffline enabled (c :: rest) =>
      some { s.goto t (.flipOffline enabled rest) with
        cores := { s.cores with
          coreEnabled := Function.update s.cores.coreEnabled c enabled } }
  | .flipOffline enabled [] =>
      some { s.goto t (if enabled then .getInc else .disable) with
        cpusRead := Function.update s.cpusRead t false }
  | _ => none

/-- `sched_core_get` and `__sched_core_put` after their first access. -/
def count (s : State T C) (t : T) : Pc C → Option (State T C)
  | .getMutex =>
      if s.schedCoreMutex = none then some { s.goto t .getTest with schedCoreMutex := some t }
      else none
  | .getTest => some (s.goto t (if s.schedCoreCount = 0 then .enable else .getInc))
  | .enable => some { s.goto t .sync with cores := { s.cores with schedCoreEnabled := true } }
  | .sync => if ∀ u, (s.pc u).plain = false then some (s.goto t (.flipStart true)) else none
  | .getInc =>
      some { s.goto t .out with
        schedCoreCount := s.schedCoreCount + 1
        refs := s.refs + 1
        schedCoreMutex := none }
  | .putDec =>
      if s.schedCoreCount = 1 then some (s.goto t .putMutex)
      else some { s.goto t .out with schedCoreCount := s.schedCoreCount - 1 }
  | .putMutex =>
      if s.schedCoreMutex = none then some { s.goto t .putTest with schedCoreMutex := some t }
      else none
  | .putTest =>
      if s.schedCoreCount - 1 = 0 then
        some { s.goto t (.flipStart false) with schedCoreCount := s.schedCoreCount - 1 }
      else
        some { s.goto t .out with
          schedCoreCount := s.schedCoreCount - 1
          schedCoreMutex := none }
  | .disable =>
      some { s.goto t .out with
        cores := { s.cores with schedCoreEnabled := false }
        schedCoreMutex := none }
  | _ => none

/-- The next access of a thread that is inside one of the functions. -/
def cont (K : Topology C) (s : State T C) (t : T) : Option (State T C) :=
  match s.pc t with
  | .acquire goal rq stage => s.rawSpinRqLock t goal rq stage
  | .compare rq1 rq2 =>
      some (s.goto t (if s.cores.__rqLockp rq1 = s.cores.__rqLockp rq2 then .both rq1 rq2
        else .acquire (.second rq1) rq2 .entry))
  | .core job cpu phase => s.schedCoreLock K t job cpu phase
  | .flipStart enabled => s.flip K t (.flipStart enabled)
  | .flipNext enabled mask => s.flip K t (.flipNext enabled mask)
  | .flipOffline enabled rest => s.flip K t (.flipOffline enabled rest)
  | pc => s.count t pc

end State

/-! ## Steps -/

inductive Label (T C : Type*) where
  | lock (t : T) (rq : C)
  | trylock (t : T) (rq : C)
  /-- `double_rq_lock`, with the run queues as `rq_order_less` has put them. -/
  | doubleLock (t : T) (rq1 rq2 : C)
  | unlock (t : T)
  | cont (t : T)
  /-- `sched_core_get`. -/
  | get (t : T)
  /-- `sched_core_put`. -/
  | put (t : T)
  /-- The work queue runs `__sched_core_put`. -/
  | work (t : T)
  | bringUp (t : T) (cpu : C)
  | takeDown (t : T) (cpu : C)
  | dying
  | downFailed

def next (K : Topology C) (s : State T C) : Label T C → Option (State T C)
  | .lock t rq =>
      if s.pc t = .out then some (s.goto t (.acquire .single rq .entry)) else none
  | .trylock t rq =>
      if s.pc t = .out then some (s.goto t (.acquire .trylock rq .entry)) else none
  | .doubleLock t rq1 rq2 =>
      if s.pc t = .out then some (s.goto t (.acquire (.first rq2) rq1 .entry)) else none
  | .unlock t => s.rawSpinRqUnlock t
  | .cont t => s.cont K t
  | .get t =>
      if s.pc t = .out then
        if s.schedCoreCount = 0 then some (s.goto t .getMutex)
        else some { s with schedCoreCount := s.schedCoreCount + 1, refs := s.refs + 1 }
      else none
  | .put t =>
      if s.pc t = .out ∧ 0 < s.refs then
        if s.schedCoreCount = 1 then some { s with workPending := true, refs := s.refs - 1 }
        else some { s with schedCoreCount := s.schedCoreCount - 1, refs := s.refs - 1 }
      else none
  | .work t =>
      if s.pc t = .out ∧ s.workPending = true then
        some { s.goto t .putDec with workPending := false }
      else none
  | .bringUp t cpu =>
      if s.pc t = .out ∧ s.hotplug = .idle ∧ (∀ u, s.cpusRead u = false) ∧
          s.cores.smt cpu = false then
        let k := { s.cores with smt := Function.update s.cores.smt cpu true }
        some { s.goto t (.core .starting cpu (.lock (k.cpuSmtMask K cpu))) with
          cores := k
          hotplug := .changing t cpu }
      else none
  | .takeDown t cpu =>
      if s.pc t = .out ∧ s.hotplug = .idle ∧ (∀ u, s.cpusRead u = false) ∧
          s.cores.online cpu = true then
        some { s.goto t (.core .deactivate cpu (.lock (s.cores.cpuSmtMask K cpu))) with
          hotplug := .changing t cpu }
      else none
  | .dying =>
      match s.hotplug with
      | .leaving cpu =>
          if ∀ u, (s.pc u).atomic = false then
            some { s with cores := s.cores.schedCoreCpuDying cpu, hotplug := .idle }
          else none
      | _ => none
  | .downFailed =>
      match s.hotplug with
      | .leaving _ => some { s with hotplug := .idle }
      | _ => none

/-- A step that is not possible in a state leaves it as it is. -/
def step (K : Topology C) (s : State T C) (l : Label T C) : State T C := (next K s l).getD s

/-- After `sched_init` every run queue is its own leader; one CPU runs. -/
def State.init (boot : C) : State T C where
  cores :=
    { schedCoreEnabled := false
      coreEnabled := fun _ ↦ false
      core := id
      smt := fun c ↦ c = boot
      online := fun c ↦ c = boot }
  owner := fun _ ↦ none
  schedCoreCount := 0
  schedCoreMutex := none
  workPending := false
  cpusRead := fun _ ↦ false
  hotplug := .idle
  refs := 0
  warned := false
  pc := fun _ ↦ .out

end NcuKernel.RqLock
