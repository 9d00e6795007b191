import NcuKernel.Library.Runs
import NcuKernel.Sched.Fork

/-!
# The scheduler as a transition system

Any number of tasks on any number of CPUs. A label names one atomic piece of
kernel code and everything the environment decides about it: the task
`pick_next_task` returns, the arguments of a call, the answers of security hooks
and of admission control. A system call that can be preempted in the middle is
several labels; so is a fork.

Each label writes at most one task record. `taskWrite` computes that write from
the functions of the previous modules; the rest of a step is bookkeeping about
who is runnable and who runs where.
-/

namespace NcuKernel.Sched

open Runs

abbrev Cpu := ℕ

/-! ## States -/

inductive TaskState where
  | running
  | interruptible
  | uninterruptible
  | new
  deriving DecidableEq, Repr

/-- The fields of `task_struct` that say where a task is in its life. -/
structure RunState where
  state : TaskState
  onRq : Bool
  onCpu : Bool
  deriving DecidableEq, Repr

/-- How far `kernel_clone` got with a child: inside `copy_process` with the child
visible, or returned from it. -/
inductive CloneStage where
  | none
  | copying
  | copied
  deriving DecidableEq, Repr

structure State where
  task : Pid → Option TaskStruct
  life : Pid → RunState
  curr : Cpu → Pid
  clone : Pid → CloneStage

/-- The priority of the top waiter on the mutexes of `p`, if there is one. -/
def State.piTaskPrio (s : State) (p : TaskStruct) : Option ℤ :=
  (p.piTopTask.bind s.task).map TaskStruct.prio

/-! ## Labels -/

inductive Label where
  /-- The system call of the patch, up to its call of `schedule`. -/
  | mySetProcessPriority (cpu : Cpu) (priority : ℤ)
  /-- `__schedule` on a CPU; `next` is what `pick_next_task` returns. -/
  | schedule (cpu : Cpu) (preempt signalPending : Bool) (next : Pid)
  | setUserNice (p : Pid) (nice : ℤ)
  | nice (cpu : Cpu) (increment security : ℤ)
  | schedSetscheduler (cpu : Cpu) (p : Pid) (attr : SchedAttr) (user pi : Bool)
      (env : SetschedEnv)
  | sysSchedSetscheduler (cpu : Cpu) (p : Pid) (policy : BitVec 32) (priority : ℕ)
      (env : SetschedEnv)
  | sysSchedSetparam (cpu : Cpu) (p : Pid) (priority : ℕ) (env : SetschedEnv)
  | sysSchedSetattr (cpu : Cpu) (p : Pid) (size : ℕ) (uattr : SchedAttr) (env : SetschedEnv)
  /-- `copy_process` until the child is visible. -/
  | copyProcess (cpu : Cpu) (child : Pid)
  /-- The rest of `copy_process`. -/
  | copyProcessTail (child : Pid)
  | wakeUpNewTask (child : Pid)
  | rtMutexSetprio (p : Pid) (piTask : Option Pid)
  | setCurrentState (cpu : Cpu) (state : TaskState)
  | tryToWakeUp (p : Pid)
  deriving DecidableEq, Repr

/-! ## Steps -/

/-- What `__schedule` does to `prev` before it picks: a task that is about to
sleep leaves the run queue, unless a signal is pending. -/
def deactivatePrev (preempt signalPending : Bool) (r : RunState) : RunState :=
  if !preempt && r.state ≠ .running then
    if signalPending then { r with state := .running } else { r with onRq := false }
  else r

/-- Whether `pick_next_task` can return `next`: it is on a run queue once `prev`
has been dealt with, and no other CPU runs it. A task that `wake_up_new_task` has
not seen yet is on no run queue. -/
def State.pickable (s : State) (cpu : Cpu) (preempt signalPending : Bool) (next : Pid) : Bool :=
  let prev := s.curr cpu
  if next = prev then (deactivatePrev preempt signalPending (s.life prev)).onRq
  else (s.life next).onRq && !(s.life next).onCpu

def State.exists (s : State) (p : Pid) : Bool := (s.task p).isSome

/-- The label can be taken: its tasks exist and the code that leads to it has run. -/
def enabled (s : State) : Label → Bool
  | .mySetProcessPriority cpu _ => s.exists (s.curr cpu)
  | .schedule cpu preempt signalPending next =>
      s.exists (s.curr cpu) && s.exists next && s.pickable cpu preempt signalPending next
  | .setUserNice p _ => s.exists p
  | .nice cpu _ _ => s.exists (s.curr cpu)
  | .schedSetscheduler cpu p _ _ _ _ => s.exists (s.curr cpu) && s.exists p
  | .sysSchedSetscheduler cpu p _ _ _ => s.exists (s.curr cpu) && s.exists p
  | .sysSchedSetparam cpu p _ _ => s.exists (s.curr cpu) && s.exists p
  | .sysSchedSetattr cpu p _ _ _ => s.exists (s.curr cpu) && s.exists p
  | .copyProcess cpu child => s.exists (s.curr cpu) && !s.exists child
  | .copyProcessTail child => s.exists child && s.clone child = .copying
  | .wakeUpNewTask child => s.exists child && s.clone child = .copied
  | .rtMutexSetprio p piTask => s.exists p && piTask.all s.exists
  | .setCurrentState cpu state => s.exists (s.curr cpu) && state ≠ .new
  | .tryToWakeUp p => s.exists p &&
      ((s.life p).state = .interruptible || (s.life p).state = .uninterruptible)

variable (K : Kernel) (patch : Patch)

def Patch.target (s : State) (cpu : Cpu) (next : Pid) : Patch → Option Pid
  | .none => Option.none
  | .prevOnEntry => some (s.curr cpu)
  | .nextAfterPick => some next

/-- Run one of the calls that change `p` on behalf of the task on `cpu`. -/
def State.change (s : State) (cpu : Cpu) (p : Pid)
    (f : TaskStruct → TaskStruct → Option TaskStruct) : Option (Pid × TaskStruct) := do
  let current ← s.task (s.curr cpu)
  let t ← s.task p
  let t' ← f current t
  some (p, t')

/-- The one task record a label writes, and the value written. -/
def taskWrite (s : State) : Label → Option (Pid × TaskStruct)
  | .mySetProcessPriority cpu priority =>
      if patch = .none then none
      else s.change cpu (s.curr cpu) fun current _ ↦ (mySetProcessPriority current priority).1
  | .schedule cpu _ _ next =>
      (patch.target s cpu next).bind fun p ↦ (s.task p).map fun t ↦ (p, applyFixedPriority t)
  | .setUserNice p nice => (s.task p).map fun t ↦ (p, setUserNice K t nice)
  | .nice cpu increment security =>
      s.change cpu (s.curr cpu) fun current _ ↦ (sysNice K current increment security).toOption
  | .schedSetscheduler cpu p attr user pi env =>
      s.change cpu p fun current t ↦
        (__schedSetscheduler K env current t (K.isStopThread p) (s.piTaskPrio t) attr
          user pi).toOption
  | .sysSchedSetscheduler cpu p policy priority env =>
      s.change cpu p fun current t ↦
        (sysSchedSetscheduler K env current t (K.isStopThread p) (s.piTaskPrio t) policy
          priority).toOption
  | .sysSchedSetparam cpu p priority env =>
      s.change cpu p fun current t ↦
        (sysSchedSetparam K env current t (K.isStopThread p) (s.piTaskPrio t) priority).toOption
  | .sysSchedSetattr cpu p size uattr env =>
      s.change cpu p fun current t ↦
        (sysSchedSetattr K env current t (K.isStopThread p) (s.piTaskPrio t) size
          uattr).toOption
  | .copyProcess cpu child =>
      (s.task (s.curr cpu)).bind fun current ↦
        (copyProcess K current).toOption.map fun t ↦ (child, t)
  | .copyProcessTail child => (s.task child).map fun t ↦ (child, copyProcessTail K patch t)
  | .wakeUpNewTask _ => none
  | .rtMutexSetprio p piTask =>
      (s.task p).map fun t ↦ (p, rtMutexSetprio (K.isIdleThread p) t piTask
        ((piTask.bind s.task).map TaskStruct.prio))
  | .setCurrentState _ _ => none
  | .tryToWakeUp _ => none

def State.store (s : State) : Option (Pid × TaskStruct) → Pid → Option TaskStruct
  | none => s.task
  | some (p, t) => Function.update s.task p (some t)

/-- `forked` says whether a fork produced a child. -/
def lifeStep (s : State) (forked : Bool) : Label → Pid → RunState
  | .schedule cpu preempt signalPending next =>
      let prev := s.curr cpu
      let life := Function.update s.life prev
        (deactivatePrev preempt signalPending (s.life prev))
      if prev = next then life
      else
        Function.update (Function.update life prev { life prev with onCpu := false })
          next { life next with onCpu := true }
  | .copyProcess _ child =>
      if forked then Function.update s.life child ⟨.new, false, false⟩ else s.life
  | .wakeUpNewTask child => Function.update s.life child ⟨.running, true, false⟩
  | .setCurrentState cpu state =>
      Function.update s.life (s.curr cpu) { s.life (s.curr cpu) with state := state }
  | .tryToWakeUp p =>
      Function.update s.life p { s.life p with state := .running, onRq := true }
  | _ => s.life

def currStep (s : State) : Label → Cpu → Pid
  | .schedule cpu _ _ next => Function.update s.curr cpu next
  | _ => s.curr

def cloneStep (s : State) (forked : Bool) : Label → Pid → CloneStage
  | .copyProcess _ child =>
      if forked then Function.update s.clone child .copying else s.clone
  | .copyProcessTail child => Function.update s.clone child .copied
  | .wakeUpNewTask child => Function.update s.clone child .none
  | _ => s.clone

/-- One step. A label that cannot be taken leaves the state as it is. -/
def step (s : State) (l : Label) : State :=
  if enabled s l then
    { task := s.store (taskWrite K patch s l)
      life := lifeStep s (taskWrite K patch s l).isSome l
      curr := currStep s l
      clone := cloneStep s (taskWrite K patch s l).isSome l }
  else s

/-! ## What a step can do to a task -/

theorem State.store_self (s : State) (p : Pid) (t : TaskStruct) :
    s.store (some (p, t)) p = some t := by
  simp [store]

theorem State.store_ne (s : State) {p q : Pid} (t : TaskStruct) (h : q ≠ p) :
    s.store (some (p, t)) q = s.task q := by
  simp [store, h]

theorem State.change_eq_some {s : State} {cpu : Cpu} {p q : Pid}
    {f : TaskStruct → TaskStruct → Option TaskStruct} {t' : TaskStruct}
    (h : s.change cpu p f = some (q, t')) :
    q = p ∧ ∃ current t, s.task (s.curr cpu) = some current ∧ s.task p = some t ∧
      f current t = some t' := by
  unfold change at h
  cases hcur : s.task (s.curr cpu) with
  | none => simp [hcur] at h
  | some current =>
      cases ht : s.task p with
      | none => simp [hcur, ht] at h
      | some t =>
          cases hf : f current t with
          | none => simp [hcur, ht, hf] at h
          | some u =>
              simp only [hcur, ht, hf, Option.bind_eq_bind, Option.bind_some,
                Option.some.injEq, Prod.mk.injEq] at h
              exact ⟨h.1.symm, current, t, rfl, rfl, by rw [hf, h.2]⟩

theorem State.change_eq {s : State} {cpu : Cpu} {p : Pid} {current t : TaskStruct}
    (hcur : s.task (s.curr cpu) = some current) (ht : s.task p = some t)
    (f : TaskStruct → TaskStruct → Option TaskStruct) :
    s.change cpu p f = (f current t).map (Prod.mk p) := by
  simp only [State.change, hcur, ht, Option.bind_eq_bind, Option.bind_some]
  cases f current t <;> rfl

theorem taskWrite_mySetProcessPriority {s : State} {cpu : Cpu} {t : TaskStruct}
    (hpatch : patch ≠ .none) (ht : s.task (s.curr cpu) = some t) (priority : ℤ) :
    taskWrite K patch s (.mySetProcessPriority cpu priority) =
      (mySetProcessPriority t priority).1.map (Prod.mk (s.curr cpu)) := by
  simp only [taskWrite, if_neg hpatch]
  exact State.change_eq ht ht _

theorem toOption_eq_some {ε α : Type*} {x : Except ε α} {a : α} (h : x.toOption = some a) :
    x = .ok a := by
  cases x with
  | error e => simp [Except.toOption] at h
  | ok b => simpa [Except.toOption] using h

/-- The CPU and the target of a call that ends in `__sched_setscheduler`. -/
def Label.attrCall : Label → Option (Cpu × Pid)
  | .schedSetscheduler cpu p _ _ _ _ => some (cpu, p)
  | .sysSchedSetscheduler cpu p _ _ _ => some (cpu, p)
  | .sysSchedSetparam cpu p _ _ => some (cpu, p)
  | .sysSchedSetattr cpu p _ _ _ => some (cpu, p)
  | _ => none

structure Request where
  attr : SchedAttr
  user : Bool
  pi : Bool
  env : SetschedEnv

/-- The request a call makes about the record `t`, unless it is refused before. -/
def Label.request (t : TaskStruct) : Label → Option Request
  | .schedSetscheduler _ _ attr user pi env => some ⟨attr, user, pi, env⟩
  | .sysSchedSetscheduler _ _ policy priority env =>
      if policy.toInt < 0 then none
      else some ⟨schedParamAttr t policy priority, true, true, env⟩
  | .sysSchedSetparam _ _ priority env =>
      some ⟨schedParamAttr t setparamPolicy priority, true, true, env⟩
  | .sysSchedSetattr _ _ size uattr env =>
      (schedCopyAttr size uattr).toOption.bind fun attr ↦
        if attr.schedPolicy.toInt < 0 then none
        else some ⟨schedSetattrAttr K t attr, true, true, env⟩
  | _ => none

def Request.apply (r : Request) (s : State) (p : Pid) (current t : TaskStruct) :
    Except Errno TaskStruct :=
  __schedSetscheduler K r.env current t (K.isStopThread p) (s.piTaskPrio t) r.attr r.user r.pi

/-- The four entry points write what `__sched_setscheduler` makes of their request. -/
theorem taskWrite_of_attrCall {s : State} {l : Label} {cpu : Cpu} {p : Pid}
    (hcall : l.attrCall = some (cpu, p)) :
    taskWrite K patch s l = s.change cpu p fun current t ↦
      (l.request K t).bind fun r ↦ (r.apply K s p current t).toOption := by
  cases l <;> simp only [Label.attrCall, Option.some.injEq, Prod.mk.injEq, reduceCtorEq] at hcall
  case schedSetscheduler =>
    obtain ⟨rfl, rfl⟩ := hcall
    rfl
  case sysSchedSetscheduler cpu' q policy priority env =>
    obtain ⟨rfl, rfl⟩ := hcall
    simp only [taskWrite]
    congr 1
    funext current t
    by_cases hneg : policy.toInt < 0
    · simp [sysSchedSetscheduler, Label.request, hneg, Except.toOption]
    · simp [sysSchedSetscheduler, _schedSetscheduler, Label.request, Request.apply, hneg]
  case sysSchedSetparam =>
    obtain ⟨rfl, rfl⟩ := hcall
    rfl
  case sysSchedSetattr cpu' q size uattr env =>
    obtain ⟨rfl, rfl⟩ := hcall
    simp only [taskWrite]
    congr 1
    funext current t
    cases hattr : schedCopyAttr size uattr with
    | error e => simp [sysSchedSetattr, Label.request, hattr, Except.toOption]
    | ok attr =>
        by_cases hneg : attr.schedPolicy.toInt < 0
        · simp [sysSchedSetattr, Label.request, hattr, hneg, Except.toOption]
        · simp [sysSchedSetattr, Label.request, Request.apply, hattr, hneg, Except.toOption]

theorem Label.request_nice {l : Label} {cpu : Cpu} {p : Pid} {t : TaskStruct} {r : Request}
    (hcall : l.attrCall = some (cpu, p)) (hreq : l.request K t = some r) :
    (r.user = true ∧ ((minNice ≤ r.attr.schedNice ∧ r.attr.schedNice ≤ maxNice) ∨
      r.attr.schedNice = taskNice t)) ∨
      l = .schedSetscheduler cpu p r.attr r.user r.pi r.env := by
  cases l <;> simp only [Label.attrCall, Option.some.injEq, Prod.mk.injEq, reduceCtorEq] at hcall
  case schedSetscheduler =>
    obtain ⟨rfl, rfl⟩ := hcall
    obtain rfl := Option.some.inj hreq
    exact .inr rfl
  case sysSchedSetscheduler =>
    simp only [Label.request] at hreq
    split at hreq
    · simp at hreq
    · obtain rfl := Option.some.inj hreq
      exact .inl ⟨rfl, .inr rfl⟩
  case sysSchedSetparam =>
    obtain rfl := Option.some.inj hreq
    exact .inl ⟨rfl, .inr rfl⟩
  case sysSchedSetattr cpu' q size uattr env =>
    obtain ⟨attr, hattr, hsome⟩ := Option.bind_eq_some_iff.mp hreq
    split at hsome
    · simp at hsome
    · obtain rfl := Option.some.inj hsome
      refine .inl ⟨rfl, ?_⟩
      rcases schedSetattrAttr_nice K t attr with hnice | hnice
      · rw [hnice]
        exact .inl (schedCopyAttr_nice (toOption_eq_some hattr))
      · exact .inr hnice

/-- One record changed into another, by cause. -/
inductive Change (s : State) : Label → Pid → TaskStruct → TaskStruct → Prop where
  | fixed {cpu : Cpu} {priority : ℤ} {t : TaskStruct} (hpatch : patch ≠ .none)
      (hlo : 101 ≤ priority) (hhi : priority ≤ 139) :
      Change s (.mySetProcessPriority cpu priority) (s.curr cpu) t
        { t with myFixedPriority := priority }
  | assigned {cpu : Cpu} {preempt signalPending : Bool} {next p : Pid} {t : TaskStruct}
      (htarget : patch.target s cpu next = some p) :
      Change s (.schedule cpu preempt signalPending next) p t (applyFixedPriority t)
  | reniced {p : Pid} {t : TaskStruct} (nice : ℤ) :
      Change s (.setUserNice p nice) p t (setUserNice K t nice)
  | selfReniced {cpu : Cpu} {increment security : ℤ} {t t' : TaskStruct}
      (hok : sysNice K t increment security = .ok t') :
      Change s (.nice cpu increment security) (s.curr cpu) t t'
  | attributed {l : Label} {cpu : Cpu} {p : Pid} {t t' : TaskStruct} (current : TaskStruct)
      (attr : SchedAttr) (user pi : Bool) (env : SetschedEnv)
      (hcall : l.attrCall = some (cpu, p)) (hcur : s.task (s.curr cpu) = some current)
      (hok : __schedSetscheduler K env current t (K.isStopThread p) (s.piTaskPrio t) attr
        user pi = .ok t')
      (hfrom : (user = true ∧ ((minNice ≤ attr.schedNice ∧ attr.schedNice ≤ maxNice) ∨
        attr.schedNice = taskNice t)) ∨ l = .schedSetscheduler cpu p attr user pi env) :
      Change s l p t t'
  | finished {child : Pid} {t : TaskStruct} :
      Change s (.copyProcessTail child) child t (copyProcessTail K patch t)
  | boosted {p : Pid} {piTask : Option Pid} {t : TaskStruct} :
      Change s (.rtMutexSetprio p piTask) p t
        (rtMutexSetprio (K.isIdleThread p) t piTask ((piTask.bind s.task).map TaskStruct.prio))

theorem taskWrite_attributed {s : State} {l : Label} {cpu : Cpu} {p q : Pid} {t' : TaskStruct}
    (hcall : l.attrCall = some (cpu, q)) (h : taskWrite K patch s l = some (p, t')) :
    ∃ t, s.task p = some t ∧ Change K patch s l p t t' := by
  rw [taskWrite_of_attrCall K patch hcall] at h
  obtain ⟨rfl, current, t, hcur, ht, hf⟩ := State.change_eq_some h
  obtain ⟨r, hreq, hok⟩ := Option.bind_eq_some_iff.mp hf
  exact ⟨t, ht, .attributed current r.attr r.user r.pi r.env hcall hcur (toOption_eq_some hok)
    (Label.request_nice K hcall hreq)⟩

theorem taskWrite_cases {s : State} {l : Label} {p : Pid} {t' : TaskStruct}
    (h : taskWrite K patch s l = some (p, t')) :
    (∃ t, s.task p = some t ∧ Change K patch s l p t t') ∨
    (∃ cpu current, l = .copyProcess cpu p ∧ s.task (s.curr cpu) = some current ∧
      copyProcess K current = .ok t') := by
  cases l with
  | mySetProcessPriority cpu priority =>
      simp only [taskWrite] at h
      split at h
      · simp at h
      · rename_i hpatch
        obtain ⟨rfl, current, t, hcur, ht, hf⟩ := State.change_eq_some h
        obtain ⟨hlo, hhi, rfl⟩ := mySetProcessPriority_some hf
        exact .inl ⟨current, hcur, .fixed hpatch hlo hhi⟩
  | schedule cpu preempt signalPending next =>
      obtain ⟨q, htarget, hmap⟩ := Option.bind_eq_some_iff.mp h
      obtain ⟨t, ht, heq⟩ := Option.map_eq_some_iff.mp hmap
      obtain ⟨rfl, rfl⟩ := Prod.mk.inj heq
      exact .inl ⟨t, ht, .assigned htarget⟩
  | setUserNice q nice =>
      obtain ⟨t, ht, heq⟩ := Option.map_eq_some_iff.mp h
      obtain ⟨rfl, rfl⟩ := Prod.mk.inj heq
      exact .inl ⟨t, ht, .reniced nice⟩
  | nice cpu increment security =>
      obtain ⟨rfl, current, t, hcur, ht, hf⟩ := State.change_eq_some h
      exact .inl ⟨current, hcur, .selfReniced (toOption_eq_some hf)⟩
  | schedSetscheduler cpu q attr user pi env => exact .inl (taskWrite_attributed K patch rfl h)
  | sysSchedSetscheduler cpu q policy priority env =>
      exact .inl (taskWrite_attributed K patch rfl h)
  | sysSchedSetparam cpu q priority env => exact .inl (taskWrite_attributed K patch rfl h)
  | sysSchedSetattr cpu q size uattr env => exact .inl (taskWrite_attributed K patch rfl h)
  | copyProcess cpu child =>
      obtain ⟨current, hcur, hmap⟩ := Option.bind_eq_some_iff.mp h
      obtain ⟨t, ht, heq⟩ := Option.map_eq_some_iff.mp hmap
      obtain ⟨rfl, rfl⟩ := Prod.mk.inj heq
      exact .inr ⟨cpu, current, rfl, hcur, toOption_eq_some ht⟩
  | copyProcessTail child =>
      obtain ⟨t, ht, heq⟩ := Option.map_eq_some_iff.mp h
      obtain ⟨rfl, rfl⟩ := Prod.mk.inj heq
      exact .inl ⟨t, ht, .finished⟩
  | wakeUpNewTask child => simp [taskWrite] at h
  | rtMutexSetprio q piTask =>
      obtain ⟨t, ht, heq⟩ := Option.map_eq_some_iff.mp h
      obtain ⟨rfl, rfl⟩ := Prod.mk.inj heq
      exact .inl ⟨t, ht, .boosted⟩
  | setCurrentState cpu state => simp [taskWrite] at h
  | tryToWakeUp q => simp [taskWrite] at h

/-- Everything a step can do to the record of one task. -/
theorem step_task_cases (s : State) (l : Label) (p : Pid) :
    (step K patch s l).task p = s.task p ∨
    (∃ t t', enabled s l = true ∧ s.task p = some t ∧
      (step K patch s l).task p = some t' ∧ Change K patch s l p t t') ∨
    (∃ cpu current t', enabled s l = true ∧ l = .copyProcess cpu p ∧
      s.task p = none ∧ s.task (s.curr cpu) = some current ∧
      copyProcess K current = .ok t' ∧ (step K patch s l).task p = some t') := by
  by_cases hen : enabled s l = true
  · have htask : (step K patch s l).task = s.store (taskWrite K patch s l) := by
      simp [step, hen]
    cases hw : taskWrite K patch s l with
    | none => exact .inl (by rw [htask, hw]; rfl)
    | some w =>
        obtain ⟨q, t'⟩ := w
        by_cases hq : p = q
        · subst hq
          have hstored : (step K patch s l).task p = some t' := by
            rw [htask, hw, State.store_self]
          rcases taskWrite_cases K patch hw with ⟨t, ht, hchange⟩ | ⟨cpu, current, rfl, hcur, hok⟩
          · exact .inr (.inl ⟨t, t', hen, ht, hstored, hchange⟩)
          · have hfresh : s.task p = none := by
              simpa [enabled, State.exists, hcur] using hen
            exact .inr (.inr ⟨cpu, current, t', hen, rfl, hfresh, hcur, hok, hstored⟩)
        · exact .inl (by rw [htask, hw, State.store_ne s t' hq])
  · exact .inl (by simp [step, hen])

theorem step_task_of_some {s : State} {p : Pid} {t : TaskStruct} (ht : s.task p = some t)
    (l : Label) :
    ∃ t', (step K patch s l).task p = some t' ∧
      (t' = t ∨ enabled s l = true ∧ Change K patch s l p t t') := by
  rcases step_task_cases K patch s l p with
    hsame | ⟨u, t', hen, hu, hnew, hc⟩ | ⟨_, _, _, _, _, hnone, _⟩
  · exact ⟨t, hsame.trans ht, .inl rfl⟩
  · obtain rfl : u = t := Option.some.inj (hu.symm.trans ht)
    exact ⟨t', hnew, .inr ⟨hen, hc⟩⟩
  · simp [ht] at hnone

/-! ## Invariants of task records -/

def State.AllTasks (P : Pid → TaskStruct → Prop) (s : State) : Prop :=
  ∀ p t, s.task p = some t → P p t

theorem allTasks_step {P : Pid → TaskStruct → Prop} {s : State} {l : Label}
    (hchange : ∀ p t t', s.task p = some t → P p t → Change K patch s l p t t' → P p t')
    (hfork : ∀ cpu child current t', l = .copyProcess cpu child →
      s.task (s.curr cpu) = some current → P (s.curr cpu) current →
      copyProcess K current = .ok t' → P child t')
    (h : s.AllTasks P) : (step K patch s l).AllTasks P := by
  intro p t' ht'
  rcases step_task_cases K patch s l p with
    hsame | ⟨t, u, _, ht, hu, hc⟩ | ⟨cpu, current, u, _, rfl, _, hcur, hok, hu⟩
  · exact h p t' (hsame ▸ ht')
  · obtain rfl : u = t' := Option.some.inj (hu.symm.trans ht')
    exact hchange p t u ht (h p t ht) hc
  · obtain rfl : u = t' := Option.some.inj (hu.symm.trans ht')
    exact hfork cpu p current u rfl hcur (h _ current hcur) hok

/-! ## Small machines -/

def normalTask (nice : ℤ) (cred : Cred) : TaskStruct where
  prio := niceToPrio nice
  staticPrio := niceToPrio nice
  normalPrio := niceToPrio nice
  rtPriority := 0
  seLoad := loadFor K .normal (niceToPrio nice)
  dl := K.dlClearParams ⟨0, 0, 0, 0⟩
  schedClass := .fair
  uclampMin := uclampSeSet (uclampNone .min) false
  uclampMax := uclampSeSet (uclampNone .max) false
  policy := .normal
  schedResetOnFork := false
  piTopTask := none
  cred := cred
  myFixedPriority := 0

def Cred.user : Cred := ⟨1000, 1000, false, 0, 0⟩

def Cred.root : Cred := ⟨0, 0, true, 0, 0⟩

/-- The given tasks, each running on a CPU of its own. -/
def State.ofTasks (tasks : List TaskStruct) : State where
  task p := tasks[p]?
  life _ := ⟨.running, true, true⟩
  curr cpu := cpu
  clone _ := .none

theorem State.allTasks_ofTasks {P : Pid → TaskStruct → Prop} {tasks : List TaskStruct}
    (h : ∀ t ∈ tasks, ∀ p, P p t) : (ofTasks tasks).AllTasks P := by
  intro p t ht
  exact h t (List.mem_of_getElem? ht) p

end NcuKernel.Sched
