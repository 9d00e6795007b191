import NcuKernel.Wakeup.Protocol

/-!
# A proof outline for the wakeup protocol

Each program point of each CPU makes claims about a few tasks: the one that runs,
the one that is being switched out, the one that is being woken. A claim speaks of
four fields of its task. A step of one CPU changes these fields for one task, so
what has to be shown about the other CPUs is that their claims on that task survive.
-/

namespace NcuKernel.Wakeup

/-- No two of the states that the outline tells apart are equal. -/
@[simp] theorem taskStates_distinct :
    (taskRunning ≠ taskDead ∧ taskRunning ≠ taskWaking ∧ taskRunning ≠ taskNew) ∧
    (taskDead ≠ taskRunning ∧ taskDead ≠ taskWaking ∧ taskDead ≠ taskNew) ∧
    (taskWaking ≠ taskRunning ∧ taskWaking ≠ taskDead ∧ taskWaking ≠ taskNew) ∧
    taskNew ≠ taskRunning ∧ taskNew ≠ taskDead ∧ taskNew ≠ taskWaking := by decide

variable {P C : Type*}

/-- The fields of a task that the claims speak of. -/
structure View (C : Type*) where
  state : TaskState
  onRq : OnRq
  onCpu : Bool
  cpu : C

def State.view (s : State P C) (p : P) : View C := ⟨s.state p, s.onRq p, s.onCpu p, s.cpu p⟩

/-- The kinds of claims a program point makes. -/
inductive Mention (C : Type*) where
  /-- Runs and is queued. -/
  | curr
  | currRead (preempt : Bool) (prevState : TaskState)
  | currOff
  /-- Still owns the CPU, but may have left the run queue. -/
  | prev
  | prevRead (dead : Bool)
  | put
  /-- Its state matched a wake mask. -/
  | early
  | offRq
  | waking
  /-- Being woken from another CPU than its own. -/
  | remote
  /-- Being woken, and no CPU uses it any more. -/
  | released
  | listed
  | pending
  | moved (dest : C)
  | born

namespace Mention

def Ok (d : C) (v : View C) : Mention C → Prop
  | curr => v.onCpu = true ∧ v.cpu = d ∧ v.onRq = .queued
  | currRead preempt prevState =>
      v.onCpu = true ∧ v.cpu = d ∧ v.onRq = .queued ∧ v.state = prevState ∧
        (prevState = taskDead → preempt = false)
  | currOff => v.onCpu = true ∧ v.cpu = d ∧ v.onRq = .no ∧ v.state ≠ taskRunning
  | prev => v.onCpu = true ∧ v.cpu = d ∧ v.onRq ≠ .migrating ∧
      (v.state = taskDead → v.onRq = .no)
  | prevRead dead => v.onCpu = true ∧ v.cpu = d ∧ v.onRq ≠ .migrating ∧
      (v.state = taskDead → v.onRq = .no) ∧ (dead = true ↔ v.state = taskDead)
  | put => v.onCpu = false ∧ v.onRq = .no ∧ v.state = taskDead
  | early => v.state ≠ taskDead ∧ v.state ≠ taskWaking ∧ v.state ≠ taskNew
  | offRq => v.onRq = .no ∧ v.state ≠ taskDead ∧ v.state ≠ taskWaking ∧ v.state ≠ taskNew
  | waking => v.onRq = .no ∧ v.state = taskWaking
  | remote => v.onRq = .no ∧ v.state = taskWaking ∧ v.cpu ≠ d
  | released => v.onRq = .no ∧ v.state = taskWaking ∧ v.onCpu = false
  | listed => v.onRq = .no ∧ v.state = taskWaking ∧ v.cpu = d
  | pending => v.onRq = .no ∧ v.state = taskWaking ∧ v.cpu = d ∧ v.onCpu = false
  | moved dest => v.onRq = .migrating ∧ v.cpu = dest ∧ v.onCpu = false
  | born => v.onRq = .no ∧ v.state = taskRunning ∧ v.onCpu = false

/-- Made under the `pi_lock` of the task. -/
def underPi : Mention C → Bool
  | early | offRq | waking | remote | released | born => true
  | _ => false

def onList : Mention C → Bool
  | listed | pending => true
  | _ => false

/-! ## Claims of the other CPUs

One lemma for each way a step changes a task. -/

variable {c d dest : C} {v : View C} {x : TaskState} {k : Mention C}

theorem ok_early {mask : TaskState} (hmask : WakeMask mask) (hv : v.state &&& mask ≠ 0) :
    early.Ok c v := by
  refine ⟨?_, ?_, ?_⟩ <;> intro he <;> rw [he] at hv
  · exact hv hmask.1
  · exact hv hmask.2.1
  · exact hv hmask.2.2

theorem ok_setState (hv : curr.Ok c v) (hd : d ≠ c) (hx : k.underPi = false ∨ Settable x)
    (hk : k.Ok d v) : k.Ok d { v with state := x } := by
  cases k <;> simp_all [Ok, underPi, Settable]

theorem ok_sleep (hv : curr.Ok c v) (hd : d ≠ c) (hk : k.Ok d v) :
    k.Ok d { v with onRq := .no } := by
  cases k <;> simp_all [Ok]

theorem ok_takeCpu (hrq : v.onRq = .queued) (hcpu : v.onCpu = false) (hk : k.Ok d v) :
    k.Ok d { v with onCpu := true } := by
  cases k <;> simp_all [Ok]

theorem ok_releaseCpu (hv : prev.Ok c v) (hd : d ≠ c) (hk : k.Ok d v) :
    k.Ok d { v with onCpu := false } := by
  cases k <;> simp_all [Ok]

theorem ok_wakeQueued (hrq : v.onRq = .queued)
    (hread : ∀ preempt prevState, k = .currRead preempt prevState → v.cpu ≠ d)
    (hk : k.Ok d v) : k.Ok d { v with state := taskRunning } := by
  cases k <;> simp_all [Ok]

theorem ok_setWaking (hv : offRq.Ok c v) (hpi : k.underPi = false) (hk : k.Ok d v) :
    k.Ok d { v with state := taskWaking } := by
  cases k <;> simp_all [Ok, underPi]

theorem ok_activate (hv : released.Ok c v) (hpi : k.underPi = false)
    (hlist : k.onList = true → v.cpu ≠ d) (hk : k.Ok d v) :
    k.Ok d { v with state := taskRunning, onRq := .queued } := by
  cases k <;> simp_all [Ok, underPi, onList]

theorem ok_setCpu (hv : released.Ok c v) (hpi : k.underPi = false) (hlist : k.onList = false)
    (hk : k.Ok d v) : k.Ok d { v with cpu := dest } := by
  cases k <;> simp_all [Ok, underPi, onList]

theorem ok_moveOut (hrq : v.onRq = .queued) (hcpu : v.onCpu = false) (hk : k.Ok d v) :
    k.Ok d { v with onRq := .migrating, cpu := dest } := by
  cases k <;> simp_all [Ok]

theorem ok_moveIn (hv : (moved dest).Ok c v) (hk : k.Ok d v) (hne : ∀ e, k ≠ moved e) :
    k.Ok d { v with onRq := .queued } := by
  cases k <;> simp_all [Ok]

theorem ok_bear (hrq : v.onRq = .no) (hcpu : v.onCpu = false) (hnew : v.state = taskNew)
    (hk : k.Ok d v) : k.Ok d { v with state := taskRunning, cpu := dest } := by
  cases k <;> simp_all [Ok]

theorem ok_bearing (hv : born.Ok c v) (hpi : k.underPi = false) (hk : k.Ok d v) :
    k.Ok d { v with onRq := .queued } := by
  cases k <;> simp_all [Ok, underPi]

end Mention

def WakeStage.mention : WakeStage → Mention C
  | .matched | .runnable => .early
  | .offRq => .offRq
  | .waking | .spin => .waking
  | .onCpu => .remote
  | .select | .queue _ | .activate _ => .released

/-- The claims of a program point, about the running task first. -/
def Pc.mentions (curr : P) : Pc P C → List (P × Mention C)
  | .schedRead preempt prevState => [(curr, .currRead preempt prevState)]
  | .schedDeactivated => [(curr, .currOff)]
  | .schedPick | .schedBalance => [(curr, .prev)]
  | .task => [(curr, .curr)]
  | .schedSwitched prev => [(curr, .curr), (prev, .prev)]
  | .schedFinish prev dead => [(curr, .curr), (prev, .prevRead dead)]
  | .schedPut prev dead => (curr, .curr) :: if dead then [(prev, .put)] else []
  | .wake p stage => [(curr, .curr), (p, stage.mention)]
  | .pending list => (curr, .curr) :: list.map (·, .pending)
  | .moved p dest _ => [(curr, .curr), (p, .moved dest)]
  | .born p => [(curr, .curr), (p, .born)]

def State.mentions (s : State P C) (d : C) : List (P × Mention C) :=
  (s.pc d).mentions (s.curr d)

/-- The task a CPU is switching away from while that task still owns the CPU. -/
def Pc.out : Pc P C → Option P
  | .schedSwitched prev | .schedFinish prev _ => some prev
  | _ => none

def State.out (s : State P C) (d : C) : Option P := (s.pc d).out

/-- What a CPU has in its hands for others. -/
structure Role (P : Type*) where
  pi : Option P := none
  list : List P := []
  moving : Option P := none
  carried : Option P := none
  bearing : Option P := none

def Pc.role : Pc P C → Role P
  | .wake p stage =>
      match stage with
      | .matched | .runnable | .offRq => { pi := some p }
      | _ => { pi := some p, carried := some p }
  | .pending list => { list }
  | .moved p _ piLocked => { moving := some p, pi := if piLocked then some p else none }
  | .born p => { pi := some p, bearing := some p }
  | _ => {}

def State.role (s : State P C) (d : C) : Role P := (s.pc d).role

variable (M : Machine P C)

/-- What holds of each task in every reachable state. -/
structure TaskInv (s : State P C) (p : P) : Prop where
  unborn : s.state p = taskNew → s.onRq p = .no ∧ s.onCpu p = false
  idle : ∀ c, M.idleOf p = some c →
    s.state p = taskRunning ∧ s.onRq p = .queued ∧ s.cpu p = c
  mem_queue : ∀ c, p ∈ s.queue c ↔ s.onRq p = .queued ∧ s.cpu p = c ∧ M.idleOf p = none
  /-- The CPU that the task owns knows about it. -/
  owned : s.onCpu p = true → s.curr (s.cpu p) = p ∨ s.out (s.cpu p) = some p
  pi : ∀ c, (s.role c).pi = some p ↔ s.piLock p = some c
  wakeList : ∀ c, p ∈ s.wakeList c → Mention.listed.Ok c (s.view p)
  listed_pi : ∀ c, p ∈ s.wakeList c ∨ p ∈ (s.role c).list → s.piLock p = none
  /-- A wakeup that has begun is in somebody's hands. -/
  carried : s.state p = taskWaking →
    (∃ c, (s.role c).carried = some p) ∨ p ∈ s.wakeList (s.cpu p) ∨ p ∈ (s.role (s.cpu p)).list
  running : s.state p = taskRunning → s.onRq p = .no → ∃ c, (s.role c).bearing = some p
  moving : s.onRq p = .migrating → ∃ c, (s.role c).moving = some p
  moving_unique : ∀ c d, (s.role c).moving = some p → (s.role d).moving = some p → c = d

structure Inv (s : State P C) : Prop where
  /-- Every claim of every program point is true. -/
  claims : ∀ d p k, (p, k) ∈ s.mentions d → k.Ok d (s.view p)
  task : ∀ p, TaskInv M s p
  queue_nodup : ∀ c, (s.queue c).Nodup
  lists_nodup : ∀ c, (s.wakeList c ++ (s.role c).list).Nodup
  out_ne : ∀ c p, s.out c = some p → p ≠ s.curr c

/-- A step from `s` to `s'` does not concern `p`. -/
structure Same (s s' : State P C) (p : P) : Prop where
  view : s'.view p = s.view p
  piLock : s'.piLock p = s.piLock p
  queue : ∀ d, p ∈ s'.queue d ↔ p ∈ s.queue d
  wakeList : ∀ d, p ∈ s'.wakeList d ↔ p ∈ s.wakeList d
  curr : ∀ d, s'.curr d = p ↔ s.curr d = p
  out : ∀ d, s'.out d = some p ↔ s.out d = some p
  pi : ∀ d, (s'.role d).pi = some p ↔ (s.role d).pi = some p
  list : ∀ d, p ∈ (s'.role d).list ↔ p ∈ (s.role d).list
  moving : ∀ d, (s'.role d).moving = some p ↔ (s.role d).moving = some p
  carried : ∀ d, (s'.role d).carried = some p ↔ (s.role d).carried = some p
  bearing : ∀ d, (s'.role d).bearing = some p ↔ (s.role d).bearing = some p

variable {M}

theorem TaskInv.frame {s s' : State P C} {p : P} (h : TaskInv M s p) (hs : Same s s' p) :
    TaskInv M s' p := by
  have hstate : s'.state p = s.state p := congrArg View.state hs.view
  have honRq : s'.onRq p = s.onRq p := congrArg View.onRq hs.view
  have honCpu : s'.onCpu p = s.onCpu p := congrArg View.onCpu hs.view
  have hcpu : s'.cpu p = s.cpu p := congrArg View.cpu hs.view
  constructor <;>
    simp only [hstate, honRq, honCpu, hcpu, hs.view, hs.piLock, hs.queue, hs.wakeList, hs.curr,
      hs.out, hs.pi, hs.list, hs.moving, hs.carried, hs.bearing]
  exacts [h.unborn, h.idle, h.mem_queue, h.owned, h.pi, h.wakeList, h.listed_pi, h.carried,
    h.running, h.moving, h.moving_unique]

end NcuKernel.Wakeup
