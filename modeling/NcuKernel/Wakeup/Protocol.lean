import NcuKernel.Library.Runs
import Mathlib.Data.Int.Order.Basic
import Mathlib.Tactic.Common

/-!
# Sleeping and waking up

`__schedule`, `try_to_wake_up`, `sched_ttwu_pending`, `move_queued_task` and
`wake_up_new_task` run at the same time on different CPUs. Each of them keeps
interrupts off, so a CPU is inside at most one of them; a program counter per CPU
says where.

A step is one access to a word that other CPUs read without a lock (`p->__state`,
`p->on_rq`, `p->on_cpu`), or one whole section under `rq->lock` in which at most
one such word matters. The sections of `__schedule` and of `sched_ttwu_pending`
hold the lock of their own run queue across several steps; `p->pi_lock` is held
across the steps of a wakeup. Accesses are sequentially consistent, which is what
the barriers of the source are there for.

What other kernel files decide is in the labels: the task the scheduling class
picks, the CPU it selects, pending signals, CPU hotplug.
-/

namespace NcuKernel.Wakeup

open Runs

/-! ## Task states -/

abbrev TaskState := BitVec 32

def taskRunning : TaskState := 0x000

def taskInterruptible : TaskState := 0x001

def taskUninterruptible : TaskState := 0x002

def taskDead : TaskState := 0x080

def taskWakekill : TaskState := 0x100

def taskWaking : TaskState := 0x200

def taskNoload : TaskState := 0x400

def taskNew : TaskState := 0x800

def taskNormal : TaskState := taskInterruptible ||| taskUninterruptible

/-- The values of `p->on_rq`. -/
inductive OnRq where
  | no
  | queued
  | migrating
  deriving DecidableEq, Repr

/-- A state a task gives itself with `set_current_state`. -/
def Settable (v : TaskState) : Prop := v ≠ taskDead ∧ v ≠ taskWaking ∧ v ≠ taskNew

/-- A mask a waker passes: it never names the states that only the kernel's own
life cycle uses. -/
def WakeMask (mask : TaskState) : Prop :=
  taskDead &&& mask = 0 ∧ taskWaking &&& mask = 0 ∧ taskNew &&& mask = 0

instance (v : TaskState) : Decidable (Settable v) := inferInstanceAs (Decidable (_ ∧ _))

instance (mask : TaskState) : Decidable (WakeMask mask) := inferInstanceAs (Decidable (_ ∧ _))

/-- Whether a sleep in this state counts for the load average. -/
def contributesToLoad (state : TaskState) (frozen : Bool) : Bool :=
  state &&& taskUninterruptible != 0 && !(state &&& taskNoload != 0) && !frozen

/-! ## States of the machine -/

variable (P C : Type*)

/-- How far a waker got with `p`, whose `pi_lock` it holds. -/
inductive WakeStage where
  /-- The state matched. -/
  | matched
  /-- `p->on_rq` was read as set; `ttwu_runnable` is next. -/
  | runnable
  /-- `p` is on no run queue. -/
  | offRq
  /-- `TASK_WAKING` is stored. -/
  | waking
  /-- `p->on_cpu` was read as set. -/
  | onCpu
  /-- Waiting in `smp_cond_load_acquire(&p->on_cpu, !VAL)`. -/
  | spin
  | select
  | queue (migrated : Bool)
  | activate (migrated : Bool)
  deriving DecidableEq, Repr

/-- Where a CPU is. -/
inductive Pc where
  /-- In the code of `curr` or of an interrupt, outside the functions modelled here. -/
  | task
  /-- `__schedule` has the lock and has read `prev->__state`. -/
  | schedRead (preempt : Bool) (prevState : TaskState)
  /-- `prev` has left the run queue, its I/O wait is not counted yet. -/
  | schedDeactivated
  | schedPick
  /-- The lock is dropped inside `pick_next_task`. -/
  | schedBalance
  /-- `rq->curr` has changed, `finish_task_switch` runs. -/
  | schedSwitched (prev : P)
  | schedFinish (prev : P) (dead : Bool)
  /-- `prev->on_cpu` is cleared and the lock dropped. -/
  | schedPut (prev : P) (dead : Bool)
  | wake (p : P) (stage : WakeStage)
  /-- `sched_ttwu_pending`, with the part of the list that is left. -/
  | pending (list : List P)
  /-- A queued task between two run queues. -/
  | moved (p : P) (dest : C) (piLocked : Bool)
  /-- `wake_up_new_task` before it enqueues. -/
  | born (p : P)
  deriving DecidableEq, Repr

structure State where
  state : P → TaskState
  onRq : P → OnRq
  onCpu : P → Bool
  cpu : P → C
  inIowait : P → Bool
  frozen : P → Bool
  contributes : P → Bool
  remoteWakeup : P → Bool
  /-- References to the task that `finish_task_switch` has dropped. -/
  put : P → ℕ
  piLock : P → Option C
  curr : C → P
  queue : C → List P
  nrUninterruptible : C → ℤ
  nrIowait : C → ℤ
  wakeList : C → List P
  pc : C → Pc P C

/-- The fixed part of the machine. -/
structure Machine where
  idle : C → P
  /-- The CPU a task is the idle task of. -/
  idleOf : P → Option C
  cpusShareCache : C → C → Bool
  ttwuQueue : Bool
  /-- The answer of `signal_pending_state` for a task with or without a pending and a fatal
  signal. -/
  signalPendingState : (state : TaskState) → (pending fatal : Bool) → Bool
  idleOf_eq_some : ∀ p c, idleOf p = some c ↔ idle c = p
  cpusShareCache_self : ∀ c, cpusShareCache c c = true
  signalPendingState_dead : ∀ pending fatal, signalPendingState taskDead pending fatal = false

variable {P C}

/-- `rq->lock` is held across steps; only the CPU of the run queue does that. -/
def Pc.locksRq : Pc P C → Bool
  | .schedRead _ _ | .schedDeactivated | .schedPick => true
  | .schedSwitched _ | .schedFinish _ _ => true
  | .pending _ => true
  | _ => false

def State.rqFree (s : State P C) (c : C) : Bool := !(s.pc c).locksRq

/-- Before anything is forked each CPU runs its idle task. -/
def State.init (M : Machine P C) (boot : C) : State P C where
  state p := if (M.idleOf p).isSome then taskRunning else taskNew
  onRq p := if (M.idleOf p).isSome then .queued else .no
  onCpu p := (M.idleOf p).isSome
  cpu p := (M.idleOf p).getD boot
  inIowait _ := false
  frozen _ := false
  contributes _ := false
  remoteWakeup _ := false
  put _ := 0
  piLock _ := none
  curr := M.idle
  queue _ := []
  nrUninterruptible _ := 0
  nrIowait _ := 0
  wakeList _ := []
  pc _ := .task

/-! ## Pieces of code -/

section Code

open Function

variable [DecidableEq P] [DecidableEq C]

def State.goto (s : State P C) (c : C) (pc : Pc P C) : State P C :=
  { s with pc := update s.pc c pc }

def State.setTaskState (s : State P C) (p : P) (v : TaskState) : State P C :=
  { s with state := update s.state p v }

def State.setPi (s : State P C) (p : P) (holder : Option C) : State P C :=
  { s with piLock := update s.piLock p holder }

def State.setTaskCpu (s : State P C) (p : P) (c : C) : State P C :=
  { s with cpu := update s.cpu p c }

def State.activateTask (s : State P C) (c : C) (p : P) : State P C :=
  { s with
    queue := update s.queue c (s.queue c ++ [p])
    onRq := update s.onRq p .queued }

/-- `sleep` is `DEQUEUE_SLEEP`. -/
def State.deactivateTask (s : State P C) (c : C) (p : P) (sleep : Bool) : State P C :=
  { s with
    onRq := update s.onRq p (if sleep then .no else .migrating)
    queue := update s.queue c ((s.queue c).erase p) }

/-- The amount of a conditional increment. -/
def one (b : Bool) : ℤ := if b then 1 else 0

def State.addUninterruptible (s : State P C) (c : C) (n : ℤ) : State P C :=
  { s with nrUninterruptible := update s.nrUninterruptible c (s.nrUninterruptible c + n) }

def State.addIowait (s : State P C) (c : C) (n : ℤ) : State P C :=
  { s with nrIowait := update s.nrIowait c (s.nrIowait c + n) }

/-- `ttwu_do_activate` on the run queue of `c`; `ttwu_do_wakeup` is its last line. -/
def State.ttwuDoActivate (s : State P C) (c : C) (p : P) (migrated : Bool) : State P C :=
  let s := s.addUninterruptible c (-one (s.contributes p))
  let s := s.addIowait (s.cpu p) (-one (!migrated && s.inIowait p))
  (s.activateTask c p).setTaskState p taskRunning

variable (M : Machine P C)

/-- `self` is the CPU that runs the waker. -/
def State.ttwuQueueCond (s : State P C) (self cpu : C) (cpuActive wfOnCpu : Bool) : Bool :=
  if !cpuActive then false
  else if !M.cpusShareCache self cpu then true
  else wfOnCpu && decide ((s.queue cpu).length ≤ 1)

def State.ttwuQueueWakelist (s : State P C) (self : C) (p : P) (cpu : C)
    (cpuActive wfOnCpu migrated : Bool) : Option (State P C) :=
  if M.ttwuQueue && s.ttwuQueueCond M self cpu cpuActive wfOnCpu then
    -- WARN_ON_ONCE(cpu == smp_processor_id())
    if cpu = self then none
    else some { s with
      remoteWakeup := update s.remoteWakeup p migrated
      wakeList := update s.wakeList cpu (s.wakeList cpu ++ [p]) }
  else none

end Code

/-! ## Labels -/

variable (P C) in
inductive Label where
  /-- `set_current_state` by the task on `c`. -/
  | setState (c : C) (v : TaskState)
  /-- `io_schedule_prepare` and `io_schedule_finish`. -/
  | setIowait (c : C) (b : Bool)
  | setFrozen (c : C) (b : Bool)
  /-- `do_task_dead` up to its call of `__schedule`. -/
  | doTaskDead (c : C)
  | schedule (c : C) (preempt : Bool)
  /-- `__schedule` after it has read the state. -/
  | deactivate (c : C) (pending fatal : Bool)
  | pick (c : C) (next : P)
  | balance (c : C)
  | wakeCurrent (c : C) (mask : TaskState)
  | wake (c : C) (p : P) (mask : TaskState)
  | select (c cpu : C)
  | ttwuQueue (c : C) (cpuActive : Bool)
  | ttwuPending (c : C)
  /-- `migration_cpu_stop` on `c` for a task queued there. -/
  | migrate (c : C) (p : P) (dest : C)
  /-- Another mover of queued tasks, which holds no `pi_lock`. -/
  | pull (c : C) (p : P) (src dest : C)
  | wakeNew (c : C) (p : P) (dest : C)
  /-- The next step of `c` where nothing is left to choose. -/
  | cont (c : C)
  deriving DecidableEq, Repr

/-! ## Steps -/

section Steps

variable [DecidableEq P] [DecidableEq C] (M : Machine P C)

/-- What the running task may do to itself: not in the idle task, and not between
`set_special_state(TASK_DEAD)` and the last call of `__schedule`. -/
def State.inTask (s : State P C) (c : C) : Bool :=
  s.pc c = .task && (M.idleOf (s.curr c)).isNone && s.state (s.curr c) ≠ taskDead

/-- The second half of the locked part of `__schedule`, until `pick_next_task`. -/
def State.schedDeactivate (s : State P C) (c : C) (preempt : Bool) (prevState : TaskState)
    (pending fatal : Bool) : State P C :=
  let prev := s.curr c
  if !preempt && prevState ≠ 0 then
    if M.signalPendingState prevState pending fatal then
      (s.setTaskState prev taskRunning).goto c .schedPick
    else
      let load := contributesToLoad prevState (s.frozen prev)
      let s := { s with contributes := Function.update s.contributes prev load }
      let s := s.addUninterruptible c (one load)
      (s.deactivateTask c prev true).goto c .schedDeactivated
  else s.goto c .schedPick

/-- `prepare_task` and the new `rq->curr`, or the way out when nothing changes. -/
def State.schedSwitch (s : State P C) (c : C) (next : P) : State P C :=
  if s.curr c = next then s.goto c .task
  else
    { s with
      curr := Function.update s.curr c next
      onCpu := Function.update s.onCpu next true
      pc := Function.update s.pc c (.schedSwitched (s.curr c)) }

/-- `select_task_rq` has answered `cpu`. -/
def State.wakeSelect (s : State P C) (c : C) (p : P) (cpu : C) : State P C :=
  if s.cpu p ≠ cpu then
    let s := s.addIowait (s.cpu p) (-one (s.inIowait p))
    (s.setTaskCpu p cpu).goto c (.wake p (.queue true))
  else s.goto c (.wake p (.queue false))

def State.wakeCont (s : State P C) (c : C) (p : P) : WakeStage → Option (State P C)
  | .matched => some (s.goto c (.wake p (if s.onRq p = .no then .offRq else .runnable)))
  | .runnable =>
      -- `__task_rq_lock` waits for the lock and for the end of a migration
      if s.rqFree (s.cpu p) && s.onRq p ≠ .migrating then
        if s.onRq p = .queued then
          some (((s.setTaskState p taskRunning).setPi p none).goto c .task)
        else some (s.goto c (.wake p .offRq))
      else none
  | .offRq => some ((s.setTaskState p taskWaking).goto c (.wake p .waking))
  | .waking => some (s.goto c (.wake p (if s.onCpu p then .onCpu else .select)))
  | .spin => if s.onCpu p then none else some (s.goto c (.wake p .select))
  | .activate migrated =>
      if s.rqFree (s.cpu p) then
        some (((s.ttwuDoActivate (s.cpu p) p migrated).setPi p none).goto c .task)
      else none
  | _ => none

def State.pendingCont (s : State P C) (c : C) : List P → Option (State P C)
  | [] => some (s.goto c .task)
  | p :: rest =>
      -- WARN_ON_ONCE(p->on_cpu), then wait
      if s.onCpu p then none
      else
        -- WARN_ON_ONCE(task_cpu(p) != cpu_of(rq))
        let s := if s.cpu p ≠ c then s.setTaskCpu p c else s
        some ((s.ttwuDoActivate c p (s.remoteWakeup p)).goto c (.pending rest))

def State.cont (s : State P C) (c : C) : Option (State P C) :=
  match s.pc c with
  | .schedDeactivated =>
      some ((s.addIowait c (one (s.inIowait (s.curr c)))).goto c .schedPick)
  | .schedBalance => some (s.goto c .schedPick)
  | .schedSwitched prev => some (s.goto c (.schedFinish prev (s.state prev = taskDead)))
  | .schedFinish prev dead =>
      some ({ s with onCpu := Function.update s.onCpu prev false }.goto c (.schedPut prev dead))
  | .schedPut prev dead =>
      let put := s.put prev + if dead then 1 else 0
      some ({ s with put := Function.update s.put prev put }.goto c .task)
  | .wake p stage => s.wakeCont c p stage
  | .pending list => s.pendingCont c list
  | .moved p dest piLocked =>
      if s.rqFree dest then
        let holder := if piLocked then none else s.piLock p
        some (((s.activateTask dest p).setPi p holder).goto c .task)
      else none
  | .born p =>
      if s.rqFree (s.cpu p) then
        some (((s.activateTask (s.cpu p) p).setPi p none).goto c .task)
      else none
  | _ => none

/-- `move_queued_task` until it has dropped the lock of the old run queue. -/
def State.moveOut (s : State P C) (c : C) (p : P) (src dest : C) (piLocked : Bool) :
    State P C :=
  ((s.deactivateTask src p false).setTaskCpu p dest).goto c (.moved p dest piLocked)

def next (s : State P C) : Label P C → Option (State P C)
  | .setState c v =>
      if s.inTask M c && Settable v then some (s.setTaskState (s.curr c) v) else none
  | .setIowait c b =>
      if s.inTask M c then some { s with inIowait := Function.update s.inIowait (s.curr c) b }
      else none
  | .setFrozen c b =>
      if s.inTask M c then some { s with frozen := Function.update s.frozen (s.curr c) b }
      else none
  | .doTaskDead c =>
      -- `set_special_state` takes `pi_lock`
      if s.inTask M c && (s.piLock (s.curr c)).isNone then
        some (s.setTaskState (s.curr c) taskDead)
      else none
  | .schedule c preempt =>
      -- `do_exit` disables preemption before `do_task_dead`
      if s.pc c = .task && !(preempt && s.state (s.curr c) = taskDead) then
        some (s.goto c (.schedRead preempt (s.state (s.curr c))))
      else none
  | .deactivate c pending fatal =>
      match s.pc c with
      | .schedRead preempt prevState =>
          some (s.schedDeactivate M c preempt prevState pending fatal)
      | _ => none
  | .pick c next =>
      if s.pc c = .schedPick && (next ∈ s.queue c || next = M.idle c) then
        some (s.schedSwitch c next)
      else none
  | .balance c => if s.pc c = .schedPick then some (s.goto c .schedBalance) else none
  | .wakeCurrent c mask =>
      if s.pc c = .task && WakeMask mask && s.state (s.curr c) &&& mask ≠ 0 then
        some (s.setTaskState (s.curr c) taskRunning)
      else none
  | .wake c p mask =>
      if s.pc c = .task && p ≠ s.curr c && WakeMask mask && (s.piLock p).isNone &&
          s.state p &&& mask ≠ 0 then
        some ((s.setPi p (some c)).goto c (.wake p .matched))
      else none
  | .select c cpu =>
      match s.pc c with
      | .wake p .select => some (s.wakeSelect c p cpu)
      | _ => none
  | .ttwuQueue c cpuActive =>
      match s.pc c with
      | .wake p .onCpu =>
          match s.ttwuQueueWakelist M c p (s.cpu p) cpuActive true false with
          | some s' => some ((s'.setPi p none).goto c .task)
          | none => some (s.goto c (.wake p .spin))
      | .wake p (.queue migrated) =>
          match s.ttwuQueueWakelist M c p (s.cpu p) cpuActive false migrated with
          | some s' => some ((s'.setPi p none).goto c .task)
          | none => some (s.goto c (.wake p (.activate migrated)))
      | _ => none
  | .ttwuPending c =>
      if s.pc c = .task && s.wakeList c ≠ [] then
        some ({ s with wakeList := Function.update s.wakeList c [] }.goto c
          (.pending (s.wakeList c)))
      else none
  | .migrate c p dest =>
      if s.pc c = .task && p ≠ s.curr c && (s.piLock p).isNone && p ∈ s.queue c then
        some ((s.setPi p (some c)).moveOut c p c dest true)
      else none
  | .pull c p src dest =>
      if s.pc c = .task && s.rqFree src && p ∈ s.queue src && !s.onCpu p then
        some (s.moveOut c p src dest false)
      else none
  | .wakeNew c p dest =>
      if s.pc c = .task && (s.piLock p).isNone && s.state p = taskNew then
        some ((((s.setPi p (some c)).setTaskState p taskRunning).setTaskCpu p dest).goto c
          (.born p))
      else none
  | .cont c => s.cont c

def enabled (s : State P C) (l : Label P C) : Bool := (next M s l).isSome

/-- One step. A label that cannot be taken leaves the state as it is. -/
def step (s : State P C) (l : Label P C) : State P C := (next M s l).getD s

end Steps

end NcuKernel.Wakeup
