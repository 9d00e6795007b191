import NcuKernel.Sched.System

/-!
# Priority ranges

`static_prio` has six writers, and each relies on a different check. Together
they keep it between 100 and 139, so the load weight tables are never read out
of bounds and the test `static_prio != 0` of the patch always passes.
-/

set_option linter.style.nameCheck false

namespace NcuKernel.Sched

open Runs

/-- What bounds the nice value of a direct call of `__sched_setscheduler`: it is in range,
or, as in `_sched_setscheduler`, the value the task has. The system calls are not
restricted: they clamp or reuse the value. -/
def Label.NiceChecked (s : State) : Label → Prop
  | .schedSetscheduler _ p attr _ _ _ =>
      (minNice ≤ attr.schedNice ∧ attr.schedNice ≤ maxNice) ∨
        ∃ t, s.task p = some t ∧ attr.schedNice = taskNice t
  | _ => True

def StaticPrioInRange (t : TaskStruct) : Prop := 100 ≤ t.staticPrio ∧ t.staticPrio ≤ 139

def FixedPriorityInRange (t : TaskStruct) : Prop :=
  t.myFixedPriority = 0 ∨ 101 ≤ t.myFixedPriority ∧ t.myFixedPriority ≤ 139

theorem niceToPrio_mem {nice : ℤ} (hlo : minNice ≤ nice) (hhi : nice ≤ maxNice) :
    100 ≤ niceToPrio nice ∧ niceToPrio nice ≤ 139 := by
  simp only [minNice, maxNice, niceToPrio] at *
  omega

theorem taskNice_mem {t : TaskStruct} (h : StaticPrioInRange t) :
    minNice ≤ taskNice t ∧ taskNice t ≤ maxNice := by
  obtain ⟨hlo, hhi⟩ := h
  simp only [minNice, maxNice, taskNice, prioToNice]
  omega

theorem setUserNice_staticPrio_mem (K : Kernel) {t : TaskStruct} (h : StaticPrioInRange t)
    (nice : ℤ) : StaticPrioInRange (setUserNice K t nice) := by
  rcases setUserNice_cases K t nice with ⟨heq, _⟩ | ⟨heq, _, hlo, hhi⟩ | ⟨heq, _, hlo, hhi⟩
  · rw [heq]
    exact h
  · rw [heq]
    exact niceToPrio_mem hlo hhi
  · rw [heq]
    exact niceToPrio_mem hlo hhi

theorem applyFixedPriority_mem {t : TaskStruct} (h : StaticPrioInRange t) :
    StaticPrioInRange (applyFixedPriority t) := by
  unfold StaticPrioInRange
  rcases applyFixedPriority_staticPrio t with heq | ⟨hlo, hhi, heq⟩
  · rw [heq]
    exact h
  · rw [heq]
    omega

variable (K : Kernel) (patch : Patch)

theorem __schedSetscheduler_staticPrio_mem {env : SetschedEnv} {current t t' : TaskStruct}
    {isStop : Bool} {piTaskPrio : Option ℤ} {attr : SchedAttr} {user pi : Bool}
    (h : StaticPrioInRange t)
    (hnice : (minNice ≤ attr.schedNice ∧ attr.schedNice ≤ maxNice) ∨ attr.schedNice = taskNice t)
    (hok : __schedSetscheduler K env current t isStop piTaskPrio attr user pi = .ok t') :
    StaticPrioInRange t' := by
  have hrange : minNice ≤ attr.schedNice ∧ attr.schedNice ≤ maxNice := by
    rcases hnice with hnice | hnice
    · exact hnice
    · rw [hnice]
      exact taskNice_mem h
  unfold StaticPrioInRange
  rcases (__schedSetscheduler_effect K hok).staticPrio with heq | heq
  · rw [heq]
    exact h
  · rw [heq]
    exact niceToPrio_mem hrange.1 hrange.2

theorem Change.staticPrio_mem {s : State} {l : Label} {p : Pid} {t t' : TaskStruct}
    (hchecked : l.NiceChecked s) (ht : s.task p = some t) (hc : Change K patch s l p t t')
    (h : StaticPrioInRange t) : StaticPrioInRange t' := by
  cases hc with
  | fixed => exact h
  | assigned => exact applyFixedPriority_mem h
  | reniced nice => exact setUserNice_staticPrio_mem K h nice
  | selfReniced hok =>
      obtain ⟨nice, rfl, _⟩ := sysNice_ok K hok
      exact setUserNice_staticPrio_mem K h nice
  | attributed current attr user pi env _ _ hok hfrom =>
      rcases hfrom with ⟨_, hnice⟩ | rfl
      · exact __schedSetscheduler_staticPrio_mem K h hnice hok
      · refine __schedSetscheduler_staticPrio_mem K h ?_ hok
        rcases hchecked with hrange | ⟨u, hu, hnice⟩
        · exact .inl hrange
        · obtain rfl : u = t := Option.some.inj (hu.symm.trans ht)
          exact .inr hnice
  | finished =>
      obtain ⟨lo, heq⟩ := copyProcessTail_frame K patch t
      rw [heq]
      exact h
  | boosted =>
      obtain ⟨prio, schedClass, top, heq⟩ := rtMutexSetprio_frame _ t _ _
      rw [heq]
      exact h

theorem copyProcess_staticPrio_mem {current child : TaskStruct}
    (h : StaticPrioInRange current) (hok : copyProcess K current = .ok child) :
    StaticPrioInRange child := by
  unfold StaticPrioInRange at *
  cases hreset : current.schedResetOnFork with
  | false =>
      obtain ⟨_, hstatic, _⟩ := copyProcess_of_not_reset K hreset hok
      rw [hstatic]
      exact h
  | true =>
      obtain ⟨hbranch, _⟩ := copyProcess_of_reset K hreset hok
      rcases hbranch with ⟨_, _, hstatic⟩ | ⟨_, _, hstatic⟩
      · omega
      · omega

theorem staticPrio_mem_step {s : State} {l : Label}
    (h : s.AllTasks fun _ t ↦ StaticPrioInRange t) (hchecked : l.NiceChecked s) :
    (step K patch s l).AllTasks fun _ t ↦ StaticPrioInRange t := by
  apply allTasks_step K patch (P := fun _ t ↦ StaticPrioInRange t) _ _ h
  · intro p t t' ht hrange hc
    exact hc.staticPrio_mem K patch hchecked ht hrange
  · intro cpu child current t' _ _ hcur hok
    exact copyProcess_staticPrio_mem K hcur hok

/-! ## The fixed priority -/

/-- Apart from the call itself and the reset in a fork, nothing writes the field. -/
theorem Change.myFixedPriority {s : State} {l : Label} {p : Pid} {t t' : TaskStruct}
    (hc : Change K patch s l p t t') :
    t'.myFixedPriority = t.myFixedPriority ∨
      (∃ cpu priority, l = .mySetProcessPriority cpu priority ∧ p = s.curr cpu ∧
        101 ≤ priority ∧ priority ≤ 139 ∧ t'.myFixedPriority = priority) ∨
      (l = .copyProcessTail p ∧ t'.myFixedPriority = 0) := by
  cases hc with
  | @fixed cpu priority _ _ hlo hhi => exact .inr (.inl ⟨cpu, priority, rfl, rfl, hlo, hhi, rfl⟩)
  | assigned =>
      left
      rw [applyFixedPriority_eq]
  | reniced nice => exact .inl (setUserNice_frame K t nice).2
  | selfReniced hok =>
      obtain ⟨nice, rfl, _⟩ := sysNice_ok K hok
      exact .inl (setUserNice_frame K t nice).2
  | attributed current attr user pi env _ _ hok =>
      exact .inl (__schedSetscheduler_effect K hok).myFixedPriority
  | finished =>
      obtain ⟨lo, heq⟩ := copyProcessTail_frame K patch t
      rw [heq]
      by_cases hpatch : patch = .none
      · exact .inl (if_pos hpatch)
      · exact .inr (.inr ⟨rfl, if_neg hpatch⟩)
  | boosted =>
      obtain ⟨prio, schedClass, top, heq⟩ := rtMutexSetprio_frame _ t _ _
      left
      rw [heq]

theorem fixedPriority_mem_step {s : State} (l : Label)
    (h : s.AllTasks fun _ t ↦ FixedPriorityInRange t) :
    (step K patch s l).AllTasks fun _ t ↦ FixedPriorityInRange t := by
  apply allTasks_step K patch (P := fun _ t ↦ FixedPriorityInRange t) _ _ h
  · intro p t t' _ hfixed hc
    unfold FixedPriorityInRange at *
    rcases hc.myFixedPriority K patch with heq | ⟨_, _, _, _, hlo, hhi, heq⟩ | ⟨_, heq⟩
    · rw [heq]
      exact hfixed
    · rw [heq]
      exact .inr ⟨hlo, hhi⟩
    · exact .inl heq
  · intro cpu child current t' _ _ hcur hok
    unfold FixedPriorityInRange at *
    rw [(copyProcess_frame K hok).2]
    exact hcur

/-- The condition of the assignment in `__schedule`. -/
def fixedPriorityGuard (t : TaskStruct) : Prop :=
  t.staticPrio ≠ 0 ∧ 101 ≤ t.myFixedPriority ∧ t.myFixedPriority ≤ 139

theorem fixedPriorityGuard_iff_ne_zero {t : TaskStruct} (hstatic : StaticPrioInRange t)
    (hfixed : FixedPriorityInRange t) : fixedPriorityGuard t ↔ t.myFixedPriority ≠ 0 := by
  unfold fixedPriorityGuard StaticPrioInRange FixedPriorityInRange at *
  omega

/-! ## Calls of `set_load_weight` -/

/-- The index into both weight tables. -/
def loadIndex (p : TaskStruct) : ℤ := p.staticPrio - maxRtPrio

/-- The record that `set_user_nice` hands to `set_load_weight`, if it gets that far. -/
def setUserNiceLoad (p : TaskStruct) (nice : ℤ) : Option TaskStruct :=
  if taskNice p = nice ∨ nice < minNice ∨ maxNice < nice then none
  else if taskHasDlPolicy p || taskHasRtPolicy p then none
  else some { p with staticPrio := niceToPrio nice }

def sysNiceLoad (current : TaskStruct) (increment security : ℤ) : Option TaskStruct :=
  let increment := clamp increment (-niceWidth) niceWidth
  let nice := clamp (taskNice current + increment) minNice maxNice
  if increment < 0 && !canNice current current nice then none
  else if security ≠ 0 then none
  else setUserNiceLoad current nice

def __setschedulerParamsLoad (p : TaskStruct) (attr : SchedAttr) : TaskStruct :=
  let policy := attrPolicy p attr
  let p := { p with policy := policy }
  let p :=
    if dlPolicy policy then { p with dl := K.setparamDl p.dl attr }
    else if fairPolicy K policy then { p with staticPrio := niceToPrio attr.schedNice }
    else p
  let p := { p with rtPriority := attr.schedPriority }
  { p with normalPrio := normalPrio p }

def __schedSetschedulerLoad (env : SetschedEnv) (current p : TaskStruct) (isStop : Bool)
    (attr : SchedAttr) (user : Bool) : Option TaskStruct :=
  match requestedPolicy p attr with
  | none => none
  | some (policy, resetOnFork) =>
      match firstError (earlyChecks K env current p isStop policy resetOnFork attr user) with
      | some _ => none
      | none =>
          if policy = p.policy && !changeRequested K p policy attr then none
          else
            match firstError (lateChecks env p policy attr user) with
            | some _ => none
            | none =>
                if attr.has schedFlagKeepParams then none
                else some (__setschedulerParamsLoad K { p with schedResetOnFork := resetOnFork }
                  attr)

def revertOnForkLoad (p : TaskStruct) : TaskStruct :=
  let p := revertPolicy p
  { p with prio := p.staticPrio, normalPrio := p.staticPrio }

def schedForkLoad (current p : TaskStruct) : Option TaskStruct :=
  let p := __schedFork K p
  let p := { p with prio := current.normalPrio }
  let p := uclampFork K p
  if p.schedResetOnFork then some (revertOnForkLoad p) else none

/-- The record that the code of a label hands to `set_load_weight`. No label calls it
twice. -/
def loadWeightCall (s : State) (l : Label) : Option TaskStruct :=
  match l with
  | .setUserNice p nice => (s.task p).bind fun t ↦ setUserNiceLoad t nice
  | .nice cpu increment security =>
      (s.task (s.curr cpu)).bind fun t ↦ sysNiceLoad t increment security
  | .copyProcess cpu _ =>
      (s.task (s.curr cpu)).bind fun t ↦ schedForkLoad K t (rtMutexInitTask (dupTaskStruct t))
  | l =>
      l.attrCall.bind fun call ↦ (s.task (s.curr call.1)).bind fun current ↦
        (s.task call.2).bind fun t ↦ (l.request K t).bind fun r ↦
          __schedSetschedulerLoad K r.env current t (K.isStopThread call.2) r.attr r.user

/-- The weight a function leaves: that of its call of `set_load_weight`, or the old one. -/
def storedLoad (call : Option TaskStruct) (old : LoadWeight) : LoadWeight :=
  (call.map fun q ↦ (setLoadWeight K q true).seLoad).getD old

theorem setUserNice_seLoad (p : TaskStruct) (nice : ℤ) :
    (setUserNice K p nice).seLoad = storedLoad K (setUserNiceLoad p nice) p.seLoad := by
  unfold setUserNice setUserNiceLoad
  by_cases hearly : taskNice p = nice ∨ nice < minNice ∨ maxNice < nice
  · rw [if_pos hearly, if_pos hearly]
    rfl
  · rw [if_neg hearly, if_neg hearly]
    by_cases hother : (taskHasDlPolicy p || taskHasRtPolicy p) = true
    · rw [if_pos hother, if_pos hother]
      rfl
    · rw [if_neg hother, if_neg hother]
      dsimp only [effectivePrio]
      split <;> simp [storedLoad]

theorem sysNice_seLoad {current t : TaskStruct} {increment security : ℤ}
    (h : sysNice K current increment security = .ok t) :
    t.seLoad = storedLoad K (sysNiceLoad current increment security) current.seLoad := by
  dsimp only [sysNice, sysNiceLoad] at *
  split at h
  · simp at h
  · rename_i hallowed
    rw [if_neg hallowed]
    split at h
    · simp at h
    · rename_i hsecurity
      rw [if_neg hsecurity, ← Except.ok.inj h]
      exact setUserNice_seLoad K current _

theorem __schedSetscheduler_seLoad {env : SetschedEnv} {current p q : TaskStruct}
    {isStop : Bool} {piTaskPrio : Option ℤ} {attr : SchedAttr} {user pi : Bool}
    (h : __schedSetscheduler K env current p isStop piTaskPrio attr user pi = .ok q) :
    q.seLoad = storedLoad K (__schedSetschedulerLoad K env current p isStop attr user)
      p.seLoad := by
  obtain ⟨policy, resetOnFork, hreq, hearly, hrest⟩ := __schedSetscheduler_ok K h
  simp only [__schedSetschedulerLoad, hreq, hearly]
  rcases hrest with ⟨hpolicy, hsame, rfl⟩ | ⟨hchange, hlate, rfl⟩
  · rw [if_pos (by simp [hpolicy, hpolicy ▸ hsame])]
    rfl
  · rw [if_neg (by simpa using hchange), hlate]
    obtain ⟨lo, hi, heq⟩ := setschedulerChange_eq K p piTaskPrio policy resetOnFork attr pi
    rw [heq]
    by_cases hkeep : attr.has schedFlagKeepParams = true
    · simp only [hkeep, if_true]
      rfl
    · simp only [hkeep]
      rfl

theorem copyProcess_seLoad {current child : TaskStruct} (h : copyProcess K current = .ok child) :
    child.seLoad = storedLoad K (schedForkLoad K current (rtMutexInitTask (dupTaskStruct current)))
      current.seLoad := by
  let copy := uclampFork K { __schedFork K (rtMutexInitTask (dupTaskStruct current)) with
    prio := current.normalPrio }
  have hclass : setForkClass (if copy.schedResetOnFork then revertOnFork K copy else copy) =
      .ok child := h
  have hcopy : copy.seLoad = current.seLoad := by
    obtain ⟨lo, hi, hfork⟩ := uclampFork_frame K
      { __schedFork K (rtMutexInitTask (dupTaskStruct current)) with prio := current.normalPrio }
    have hload := congrArg TaskStruct.seLoad hfork
    exact hload
  have hload : schedForkLoad K current (rtMutexInitTask (dupTaskStruct current)) =
      if copy.schedResetOnFork then some (revertOnForkLoad copy) else none := rfl
  rw [setForkClass_ok hclass, hload]
  by_cases hreset : copy.schedResetOnFork = true
  · simp only [hreset, if_true]
    simp [revertOnFork, revertOnForkLoad, storedLoad]
  · simp only [hreset]
    exact hcopy

theorem loadWeightCall_of_attrCall {s : State} {l : Label} {cpu : Cpu} {p : Pid}
    (hcall : l.attrCall = some (cpu, p)) :
    loadWeightCall K s l = (s.task (s.curr cpu)).bind fun current ↦
      (s.task p).bind fun t ↦ (l.request K t).bind fun r ↦
        __schedSetschedulerLoad K r.env current t (K.isStopThread p) r.attr r.user := by
  cases l <;> simp only [Label.attrCall, Option.some.injEq, Prod.mk.injEq, reduceCtorEq] at hcall
  all_goals
    obtain ⟨rfl, rfl⟩ := hcall
    rfl

/-- The task whose weight a step keeps for `p` if it makes no call: `p`, or the parent. -/
def Label.weightFrom (s : State) (p : Pid) : Label → Pid
  | .copyProcess cpu _ => s.curr cpu
  | _ => p

/-- A record that the step stores has the weight of the step's call of `set_load_weight` or,
if it makes none, the one that the task or its parent had before. -/
def LoadWeightStored (s : State) (l : Label) : Prop :=
  ∀ p t', taskWrite K patch s l = some (p, t') →
    ∃ t, s.task (l.weightFrom s p) = some t ∧
      t'.seLoad = storedLoad K (loadWeightCall K s l) t.seLoad

theorem Label.weightFrom_of_attrCall {l : Label} {call : Cpu × Pid} (hcall : l.attrCall = some call)
    (s : State) (p : Pid) : l.weightFrom s p = p := by
  cases l with
  | copyProcess => simp [Label.attrCall] at hcall
  | _ => rfl

theorem attrCall_seLoad {s : State} {l : Label} {cpu : Cpu} {q : Pid}
    (hcall : l.attrCall = some (cpu, q)) : LoadWeightStored K patch s l := by
  intro p t' h
  rw [taskWrite_of_attrCall K patch hcall] at h
  obtain ⟨rfl, current, t, hcur, ht, hf⟩ := State.change_eq_some h
  obtain ⟨r, hreq, hok⟩ := Option.bind_eq_some_iff.mp hf
  refine ⟨t, by rwa [Label.weightFrom_of_attrCall hcall], ?_⟩
  rw [__schedSetscheduler_seLoad K (toOption_eq_some hok), loadWeightCall_of_attrCall K hcall]
  simp [hcur, ht, hreq]

theorem taskWrite_seLoad (s : State) (l : Label) : LoadWeightStored K patch s l := by
  intro p t' h
  cases l with
  | setUserNice q nice =>
      obtain ⟨t, ht, heq⟩ := Option.map_eq_some_iff.mp h
      obtain ⟨rfl, rfl⟩ := Prod.mk.inj heq
      refine ⟨t, ht, ?_⟩
      simp [loadWeightCall, ht, setUserNice_seLoad]
  | nice cpu increment security =>
      obtain ⟨rfl, current, t, hcur, ht, hf⟩ := State.change_eq_some h
      refine ⟨current, hcur, ?_⟩
      simp [loadWeightCall, hcur, sysNice_seLoad K (toOption_eq_some hf)]
  | copyProcess cpu child =>
      obtain ⟨current, hcur, hmap⟩ := Option.bind_eq_some_iff.mp h
      obtain ⟨t, ht, heq⟩ := Option.map_eq_some_iff.mp hmap
      obtain ⟨rfl, rfl⟩ := Prod.mk.inj heq
      refine ⟨current, hcur, ?_⟩
      simp [loadWeightCall, hcur, copyProcess_seLoad K (toOption_eq_some ht)]
  | schedSetscheduler => exact attrCall_seLoad K patch rfl p t' h
  | sysSchedSetscheduler => exact attrCall_seLoad K patch rfl p t' h
  | sysSchedSetparam => exact attrCall_seLoad K patch rfl p t' h
  | sysSchedSetattr => exact attrCall_seLoad K patch rfl p t' h
  | mySetProcessPriority cpu priority =>
      rcases taskWrite_cases K patch h with ⟨t, ht, hc⟩ | ⟨_, _, hl, _⟩
      · refine ⟨t, ht, ?_⟩
        cases hc with
        | fixed => rfl
        | attributed _ _ _ _ _ hcall => simp [Label.attrCall] at hcall
      · simp at hl
  | schedule cpu preempt signalPending next =>
      obtain ⟨q, _, hmap⟩ := Option.bind_eq_some_iff.mp h
      obtain ⟨t, ht, heq⟩ := Option.map_eq_some_iff.mp hmap
      obtain ⟨rfl, rfl⟩ := Prod.mk.inj heq
      refine ⟨t, ht, ?_⟩
      rw [applyFixedPriority_eq]
      rfl
  | copyProcessTail child =>
      obtain ⟨t, ht, heq⟩ := Option.map_eq_some_iff.mp h
      obtain ⟨rfl, rfl⟩ := Prod.mk.inj heq
      obtain ⟨lo, hframe⟩ := copyProcessTail_frame K patch t
      refine ⟨t, ht, ?_⟩
      rw [hframe]
      rfl
  | rtMutexSetprio q piTask =>
      obtain ⟨t, ht, heq⟩ := Option.map_eq_some_iff.mp h
      obtain ⟨rfl, rfl⟩ := Prod.mk.inj heq
      obtain ⟨prio, schedClass, top, hframe⟩ := rtMutexSetprio_frame (K.isIdleThread q) t piTask
        ((piTask.bind s.task).map TaskStruct.prio)
      refine ⟨t, ht, ?_⟩
      rw [hframe]
      rfl
  | wakeUpNewTask child => simp [taskWrite] at h
  | setCurrentState cpu state => simp [taskWrite] at h
  | tryToWakeUp q => simp [taskWrite] at h

/-! ## The calls stay inside the tables -/

theorem setUserNiceLoad_mem {t q : TaskStruct} {nice : ℤ} (h : setUserNiceLoad t nice = some q) :
    StaticPrioInRange q := by
  unfold setUserNiceLoad at h
  split at h
  · simp at h
  · rename_i hrange
    push Not at hrange
    split at h
    · simp at h
    · rw [← Option.some.inj h]
      exact niceToPrio_mem hrange.2.1 hrange.2.2

theorem sysNiceLoad_mem {t q : TaskStruct} {increment security : ℤ}
    (h : sysNiceLoad t increment security = some q) : StaticPrioInRange q := by
  dsimp only [sysNiceLoad] at h
  split at h
  · simp at h
  · split at h
    · simp at h
    · exact setUserNiceLoad_mem h

theorem __setschedulerParamsLoad_mem {t : TaskStruct} {attr : SchedAttr}
    (h : StaticPrioInRange t) (hnice : minNice ≤ attr.schedNice ∧ attr.schedNice ≤ maxNice) :
    StaticPrioInRange (__setschedulerParamsLoad K t attr) := by
  have hprio := niceToPrio_mem hnice.1 hnice.2
  dsimp only [__setschedulerParamsLoad, StaticPrioInRange]
  split
  · exact h
  · split
    · exact hprio
    · exact h

theorem __schedSetschedulerLoad_mem {env : SetschedEnv} {current t q : TaskStruct}
    {isStop user : Bool} {attr : SchedAttr} (h : StaticPrioInRange t)
    (hnice : (minNice ≤ attr.schedNice ∧ attr.schedNice ≤ maxNice) ∨ attr.schedNice = taskNice t)
    (hload : __schedSetschedulerLoad K env current t isStop attr user = some q) :
    StaticPrioInRange q := by
  have hrange : minNice ≤ attr.schedNice ∧ attr.schedNice ≤ maxNice := by
    rcases hnice with hnice | hnice
    · exact hnice
    · rw [hnice]
      exact taskNice_mem h
  unfold __schedSetschedulerLoad at hload
  cases hreq : requestedPolicy t attr with
  | none => simp [hreq] at hload
  | some request =>
      obtain ⟨policy, resetOnFork⟩ := request
      simp only [hreq] at hload
      split at hload
      · simp at hload
      · split at hload
        · simp at hload
        · split at hload
          · simp at hload
          · split at hload
            · simp at hload
            · rw [← Option.some.inj hload]
              exact __setschedulerParamsLoad_mem K h hrange

theorem schedForkLoad_mem {current p q : TaskStruct} (h : StaticPrioInRange p)
    (hload : schedForkLoad K current p = some q) : StaticPrioInRange q := by
  obtain ⟨lo, hi, hfork⟩ := uclampFork_frame K { __schedFork K p with prio := current.normalPrio }
  dsimp only [schedForkLoad] at hload
  split at hload
  · rw [← Option.some.inj hload, hfork]
    rcases revertPolicy_cases { __schedFork K p with
      prio := current.normalPrio, uclampMin := lo, uclampMax := hi } with
      ⟨_, _, hstatic⟩ | ⟨_, _, hstatic⟩
    · change 100 ≤ (revertPolicy _).staticPrio ∧ (revertPolicy _).staticPrio ≤ 139
      rw [hstatic]
      omega
    · change 100 ≤ (revertPolicy _).staticPrio ∧ (revertPolicy _).staticPrio ≤ 139
      rw [hstatic]
      have hsame : (__schedFork K p).staticPrio = p.staticPrio := rfl
      unfold StaticPrioInRange at h
      dsimp only
      omega
  · simp at hload

theorem loadWeightCall_mem {s : State} {l : Label} {q : TaskStruct}
    (h : s.AllTasks fun _ t ↦ StaticPrioInRange t) (hchecked : l.NiceChecked s)
    (hload : loadWeightCall K s l = some q) : StaticPrioInRange q := by
  cases hcall : l.attrCall with
  | some call =>
      obtain ⟨cpu, p⟩ := call
      rw [loadWeightCall_of_attrCall K hcall] at hload
      obtain ⟨current, _, hload⟩ := Option.bind_eq_some_iff.mp hload
      obtain ⟨t, ht, hload⟩ := Option.bind_eq_some_iff.mp hload
      obtain ⟨r, hreq, hload⟩ := Option.bind_eq_some_iff.mp hload
      refine __schedSetschedulerLoad_mem K (h p t ht) ?_ hload
      rcases Label.request_nice K hcall hreq with ⟨_, hnice⟩ | rfl
      · exact hnice
      · rcases hchecked with hrange | ⟨u, hu, hnice⟩
        · exact .inl hrange
        · obtain rfl : u = t := Option.some.inj (hu.symm.trans ht)
          exact .inr hnice
  | none =>
      cases l with
      | setUserNice p nice =>
          obtain ⟨t, _, ht⟩ := Option.bind_eq_some_iff.mp hload
          exact setUserNiceLoad_mem ht
      | nice cpu increment security =>
          obtain ⟨t, _, ht⟩ := Option.bind_eq_some_iff.mp hload
          exact sysNiceLoad_mem ht
      | copyProcess cpu child =>
          obtain ⟨t, ht, hfork⟩ := Option.bind_eq_some_iff.mp hload
          have hcopy : StaticPrioInRange (rtMutexInitTask (dupTaskStruct t)) := h _ t ht
          exact schedForkLoad_mem K hcopy hfork
      | _ => simp [loadWeightCall, Label.attrCall] at hload hcall

/-! ## Runs -/

structure PrioritiesInRange (t : TaskStruct) : Prop where
  static : StaticPrioInRange t
  fixed : FixedPriorityInRange t

/-- The weight tables are read inside their bounds by the call of the step. -/
def LoadIndexInTables (s : State) (l : Label) : Prop :=
  ∀ q, loadWeightCall K s l = some q →
    0 ≤ loadIndex q ∧ loadIndex q < schedPrioToWeightTable.length ∧
      loadIndex q < schedPrioToWmultTable.length

theorem loadIndexInTables_of_range {s : State} {l : Label}
    (h : s.AllTasks fun _ t ↦ StaticPrioInRange t) (hchecked : l.NiceChecked s) :
    LoadIndexInTables K s l := by
  intro q hq
  obtain ⟨hlo, hhi⟩ := loadWeightCall_mem K h hchecked hq
  have hweight : schedPrioToWeightTable.length = 40 := rfl
  have hwmult : schedPrioToWmultTable.length = 40 := rfl
  simp only [loadIndex, maxRtPrio, hweight, hwmult]
  omega

/-- In every run both priorities of every task stay in range and the weight tables are
read inside their bounds, by the calls whose weights the steps store. So the guard of the
assignment holds exactly when the fixed priority is set, and its test of `static_prio`
never decides. -/
theorem priorities_in_range (s : State) (ls : List Label)
    (hstart : s.AllTasks fun _ t ↦ StaticPrioInRange t ∧ t.myFixedPriority = 0)
    (hchecked : Along (step K patch) (fun s l ↦ l.NiceChecked s) s ls) :
    AllStates (step K patch) (fun s ↦ s.AllTasks fun _ t ↦ PrioritiesInRange t ∧
        (fixedPriorityGuard t ↔ t.myFixedPriority ≠ 0) ∧
        (fixedPriorityGuard t ↔ 101 ≤ t.myFixedPriority ∧ t.myFixedPriority ≤ 139)) s ls ∧
      Along (step K patch) (fun s l ↦ LoadIndexInTables K s l ∧ LoadWeightStored K patch s l)
        s ls := by
  have hstep : ∀ s l, (s.AllTasks fun _ t ↦ PrioritiesInRange t) → l.NiceChecked s →
      (step K patch s l).AllTasks fun _ t ↦ PrioritiesInRange t := by
    intro s l hs hl p t ht
    exact ⟨staticPrio_mem_step K patch (fun p t ht ↦ (hs p t ht).static) hl p t ht,
      fixedPriority_mem_step K patch l (fun p t ht ↦ (hs p t ht).fixed) p t ht⟩
  have hs : s.AllTasks fun _ t ↦ PrioritiesInRange t :=
    fun p t ht ↦ ⟨(hstart p t ht).1, .inl (hstart p t ht).2⟩
  refine ⟨allStates_iff_take.mpr fun k p t ht ↦ ?_, ?_⟩
  · have hrange := allStates_iff_take.mp (allStates_of_along hstep hs hchecked) k p t ht
    refine ⟨hrange, fixedPriorityGuard_iff_ne_zero hrange.static hrange.fixed, ?_⟩
    have hpos := hrange.static.1
    unfold fixedPriorityGuard
    omega
  · exact along_of_invariant hstep
      (fun s l hs hl ↦ ⟨loadIndexInTables_of_range K (fun p t ht ↦ (hs p t ht).static) hl,
        taskWrite_seLoad K patch s l⟩)
      hs hchecked

/-- A task fixes its priority, is switched in, is reniced, becomes a batch task that resets
on fork, and forks. -/
theorem priorities_in_range_solo :
    AllStates (step .linux .nextAfterPick) (fun s ↦ s.AllTasks fun _ t ↦ PrioritiesInRange t ∧
        (fixedPriorityGuard t ↔ t.myFixedPriority ≠ 0) ∧
        (fixedPriorityGuard t ↔ 101 ≤ t.myFixedPriority ∧ t.myFixedPriority ≤ 139))
        (.ofTasks [normalTask .linux 0 .root])
        [.mySetProcessPriority 0 139, .schedule 0 false false 0, .setUserNice 0 (-20),
          .sysSchedSetscheduler 0 0 0x40000003 0 ⟨0, false, false, false⟩, .copyProcess 0 1] ∧
      Along (step .linux .nextAfterPick)
        (fun s l ↦ LoadIndexInTables .linux s l ∧ LoadWeightStored .linux .nextAfterPick s l)
        (.ofTasks [normalTask .linux 0 .root])
        [.mySetProcessPriority 0 139, .schedule 0 false false 0, .setUserNice 0 (-20),
          .sysSchedSetscheduler 0 0 0x40000003 0 ⟨0, false, false, false⟩, .copyProcess 0 1] := by
  refine priorities_in_range .linux .nextAfterPick _ _ (State.allTasks_ofTasks fun t ht _ ↦ ?_)
    (by simp [Label.NiceChecked])
  rw [List.mem_singleton.mp ht]
  exact ⟨⟨by decide, by decide⟩, rfl⟩

end NcuKernel.Sched
