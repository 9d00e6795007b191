import NcuKernel.Sched.Objective

/-!
# The patch as an extension of the scheduler

The same labels are run on the kernel with and without the patch. A call changes
the record of the caller, and a fork hands the record on. The only other way from
one task to another is priority inheritance: it carries the effective priority,
and with it the class and the default of the lower clamp, to the owner of a mutex.
Those reach the remaining fields only where `__sched_setscheduler` may refuse a
request because of them: `sched_dl_overflow` is asked for a task with a deadline
priority, and a request with clamps is compared with the clamps of the task.
-/

set_option linter.style.nameCheck false

namespace NcuKernel.Sched

open Runs

variable (K : Kernel)

/-! ## Records up to what a boost changes -/

/-- The record without the fields that inheritance can change. -/
def TaskStruct.core (t : TaskStruct) : TaskStruct :=
  { t with prio := 0, schedClass := .fair, uclampMin := ⟨0, false⟩ }

theorem core_congr {α : Type*} {t u : TaskStruct} (h : t.core = u.core) (f : TaskStruct → α)
    (hf : ∀ t : TaskStruct, f t.core = f t) : f t = f u :=
  (hf t).symm.trans ((congrArg f h).trans (hf u))

theorem setUserNice_core (t : TaskStruct) (nice : ℤ) :
    (setUserNice K t.core nice).core = (setUserNice K t nice).core := by
  simp only [setUserNice, setLoadWeight_eq, effectivePrio, TaskStruct.core, taskNice,
    taskHasDlPolicy, taskHasRtPolicy, normalPrio]
  split_ifs <;> rfl

theorem sysNice_core (t : TaskStruct) (increment security : ℤ) :
    ((sysNice K t.core increment security).toOption.getD t.core).core =
      ((sysNice K t increment security).toOption.getD t).core := by
  have hrefused : ∀ nice, canNice t.core t.core nice = canNice t t nice := fun _ ↦ rfl
  have hnice : taskNice t.core = taskNice t := rfl
  simp only [sysNice, hrefused, hnice]
  split_ifs
  · rfl
  · rfl
  · exact setUserNice_core K t _

theorem uclampPostFork_core (t : TaskStruct) : (uclampPostFork K t).core = t.core := by
  obtain ⟨lo, heq⟩ := uclampPostFork_frame K t
  rw [heq]
  rfl

/-- Whatever the donor's priority, a boost leaves the donor in the record. -/
theorem rtMutexSetprio_core (isIdle : Bool) (t : TaskStruct) (piTask : Option Pid)
    (piTaskPrio : Option ℤ) :
    (rtMutexSetprio isIdle t piTask piTaskPrio).core =
      { t with piTopTask := piTask }.core := by
  dsimp only [rtMutexSetprio]
  split_ifs with hnothing
  · rw [← hnothing.1]
  · rfl
  · rfl
  · rfl

theorem revertOnFork_core (t : TaskStruct) :
    (revertOnFork K t.core).core = (revertOnFork K t).core ∧
      (revertOnFork K t.core).prio = (revertOnFork K t).prio := by
  have hpolicy : (revertPolicy t.core).core = (revertPolicy t).core := by
    have hother : (taskHasDlPolicy t.core || taskHasRtPolicy t.core) =
        (taskHasDlPolicy t || taskHasRtPolicy t) := rfl
    have hnice : prioToNice t.core.staticPrio = prioToNice t.staticPrio := rfl
    unfold revertPolicy
    rw [hother, hnice]
    split_ifs <;> rfl
  rw [revertOnFork_eq, revertOnFork_eq]
  constructor
  · exact congrArg (fun r : TaskStruct ↦ { r with
      normalPrio := r.staticPrio
      seLoad := loadFor K r.policy r.staticPrio
      schedResetOnFork := false }) hpolicy
  · exact core_congr hpolicy TaskStruct.staticPrio fun _ ↦ rfl

theorem setForkClass_core {t u : TaskStruct} (hcore : t.core = u.core) (hprio : t.prio = u.prio) :
    (setForkClass t).toOption.map TaskStruct.core =
      (setForkClass u).toOption.map TaskStruct.core := by
  unfold setForkClass
  rw [hprio]
  split
  · rfl
  · exact congrArg some hcore

theorem copyProcess_core (t : TaskStruct) :
    (copyProcess K t.core).toOption.map TaskStruct.core =
      (copyProcess K t).toOption.map TaskStruct.core := by
  let copy (t : TaskStruct) : TaskStruct :=
    uclampFork K { t with
      piTopTask := none, dl := K.dlClearParams t.dl, prio := t.normalPrio }
  have hfork : ∀ t, copyProcess K t =
      setForkClass (if (copy t).schedResetOnFork then revertOnFork K (copy t) else copy t) :=
    fun _ ↦ rfl
  have hcopy : (copy t.core).core = (copy t).core ∧ (copy t.core).prio = (copy t).prio := by
    simp only [copy, uclampFork, TaskStruct.core]
    split_ifs <;> exact ⟨rfl, rfl⟩
  have hreset : (copy t.core).schedResetOnFork = (copy t).schedResetOnFork :=
    core_congr hcopy.1 TaskStruct.schedResetOnFork fun _ ↦ rfl
  rw [hfork, hfork, hreset]
  split
  · have h := core_congr hcopy.1 (fun r ↦ (revertOnFork K r).core) fun r ↦ (revertOnFork_core K r).1
    have hprio := core_congr hcopy.1 (fun r ↦ (revertOnFork K r).prio)
      fun r ↦ (revertOnFork_core K r).2
    exact setForkClass_core h hprio
  · exact setForkClass_core hcopy.1 hcopy.2

/-! ## Requests -/

/-- The requests whose success can depend on what a boost changed. A refusal by
`sched_dl_overflow` counts whether or not the code comes to ask for it: that depends on
the priority of the task, which may differ in the two kernels. -/
def Request.sensitive (r : Request) : Bool :=
  r.env.schedDlOverflow || r.attr.has schedFlagUtilClamp

theorem request_core (t : TaskStruct) (l : Label) : l.request K t.core = l.request K t := by
  have hparams : ∀ attr, getParams K t.core attr = getParams K t attr := by
    intro attr
    have hdl := K.getparamDl_congr t.core t attr rfl rfl
    simp only [getParams, hdl]
    rfl
  cases l with
  | sysSchedSetattr cpu p size uattr env =>
      simp only [Label.request, schedSetattrAttr, hparams]
  | _ => rfl

theorem __setschedulerParams_core (t : TaskStruct) (attr : SchedAttr) :
    (__setschedulerParams K t.core attr).core = (__setschedulerParams K t attr).core := by
  rw [__setschedulerParams_eq, __setschedulerParams_eq]
  rfl

theorem __setschedulerUclamp_core (t : TaskStruct) (attr : SchedAttr) :
    (__setschedulerUclamp K t.core attr).core = (__setschedulerUclamp K t attr).core := by
  unfold __setschedulerUclamp
  split
  · simp only [TaskStruct.core, setschedulerClamp_rt_irrelevant K _ (rtTask t)]
  · rfl

theorem setschedulerChange_core {t u : TaskStruct} (hcore : t.core = u.core)
    (prio prio' : Option ℤ) (policy : Policy) (resetOnFork : Bool) (attr : SchedAttr)
    (pi : Bool) :
    (setschedulerChange K t prio policy resetOnFork attr pi).core =
      (setschedulerChange K u prio' policy resetOnFork attr pi).core := by
  have hreset : { t with schedResetOnFork := resetOnFork }.core =
      { u with schedResetOnFork := resetOnFork }.core :=
    congrArg (fun r : TaskStruct ↦ { r with schedResetOnFork := resetOnFork }) hcore
  have hparams := core_congr hreset (fun r ↦ (__setschedulerParams K r attr).core)
    (__setschedulerParams_core K · attr)
  unfold setschedulerChange
  refine core_congr ?_ (fun r ↦ (__setschedulerUclamp K r attr).core)
    (__setschedulerUclamp_core K · attr)
  split
  · exact hreset
  · exact hparams

theorem earlyChecks_cred (env : SetschedEnv) {current current' : TaskStruct}
    (hcred : current.cred = current'.cred) (p : TaskStruct) (isStop : Bool) (policy : Policy)
    (resetOnFork : Bool) (attr : SchedAttr) (user : Bool) :
    earlyChecks K env current p isStop policy resetOnFork attr user =
      earlyChecks K env current' p isStop policy resetOnFork attr user := by
  simp only [earlyChecks, permissionChecks, canNice, checkSameOwner, hcred]

theorem earlyChecks_core (env : SetschedEnv) (current t : TaskStruct) (isStop : Bool)
    (policy : Policy) (resetOnFork : Bool) {attr : SchedAttr}
    (hclamp : attr.has schedFlagUtilClamp = false) (user : Bool) :
    (earlyChecks K env current t.core isStop policy resetOnFork attr user).map Prod.fst =
      (earlyChecks K env current t isStop policy resetOnFork attr user).map Prod.fst := by
  simp only [earlyChecks, hclamp, Bool.false_and, List.map_append]
  rfl

/-- Whether a request succeeds, and the core it leaves, do not depend on what a boost
changed, unless the request is sensitive. -/
theorem __schedSetscheduler_core (r : Request) {current current' t u : TaskStruct}
    (hcred : current.cred = current'.cred) (hcore : t.core = u.core)
    (hr : t = u ∨ r.sensitive = false) (isStop : Bool) (prio prio' : Option ℤ) :
    (__schedSetscheduler K r.env current t isStop prio r.attr r.user r.pi).toOption.map
        TaskStruct.core =
      (__schedSetscheduler K r.env current' u isStop prio' r.attr r.user r.pi).toOption.map
        TaskStruct.core := by
  have hearly : ∀ policy resetOnFork,
      firstError (earlyChecks K r.env current t isStop policy resetOnFork r.attr r.user) = none ↔
        firstError (earlyChecks K r.env current' u isStop policy resetOnFork r.attr r.user) =
          none := by
    intro policy resetOnFork
    rw [earlyChecks_cred K r.env hcred]
    rcases hr with rfl | hr
    · rfl
    · have hclamp : r.attr.has schedFlagUtilClamp = false := (Bool.or_eq_false_iff.mp hr).2
      exact firstError_congr (core_congr hcore
        (fun t ↦ (earlyChecks K r.env current' t isStop policy resetOnFork r.attr r.user).map
          Prod.fst)
        fun t ↦ earlyChecks_core K r.env current' t isStop policy resetOnFork hclamp r.user)
  have hlate : ∀ policy, firstError (lateChecks r.env t policy r.attr r.user) = none ↔
      firstError (lateChecks r.env u policy r.attr r.user) = none := by
    intro policy
    rcases hr with rfl | hr
    · rfl
    · have hoverflow : r.env.schedDlOverflow = false := (Bool.or_eq_false_iff.mp hr).1
      simp only [lateChecks, hoverflow, Bool.and_false]
  have hreq : requestedPolicy t r.attr = requestedPolicy u r.attr :=
    core_congr hcore (requestedPolicy · r.attr) fun _ ↦ rfl
  rw [__schedSetscheduler_toOption, __schedSetscheduler_toOption, hreq]
  cases requestedPolicy u r.attr with
  | none => rfl
  | some request =>
      obtain ⟨policy, resetOnFork⟩ := request
      have hsame : (decide (policy = t.policy) && !changeRequested K t policy r.attr) =
          (decide (policy = u.policy) && !changeRequested K u policy r.attr) :=
        core_congr hcore (fun t ↦ decide (policy = t.policy) && !changeRequested K t policy r.attr)
          fun _ ↦ rfl
      have hreset : { t with schedResetOnFork := resetOnFork }.core =
          { u with schedResetOnFork := resetOnFork }.core :=
        congrArg (fun r : TaskStruct ↦ { r with schedResetOnFork := resetOnFork }) hcore
      simp only [Option.bind_some, hearly, hlate, hsame]
      split_ifs
      · exact congrArg some hreset
      · exact congrArg some
          (setschedulerChange_core K hcore prio prio' policy resetOnFork r.attr r.pi)
      · rfl
      · rfl

/-! ## How far a call reaches -/

/-- What the calls so far can have changed in a record: nothing, what a boost
changes, anything. -/
inductive Taint where
  | clean
  | inherited
  | affected
  deriving DecidableEq, Repr

def Taint.inherit (own donor : Taint) : Taint :=
  if donor = .clean ∨ own = .affected then own else .inherited

theorem Taint.inherit_eq_clean {own donor : Taint} (h : own.inherit donor = .clean) :
    own = .clean ∧ donor = .clean := by
  revert h
  cases own <;> cases donor <;> decide

theorem Taint.ne_affected_of_inherit {own donor : Taint} (h : own.inherit donor ≠ .affected) :
    own ≠ .affected := by
  rintro rfl
  exact h (if_pos (.inr rfl))

abbrev Taints := Pid → Taint

def Taints.donor (taint : Taints) (piTask : Option Pid) : Taint :=
  (piTask.map taint).getD .clean

/-- A request about a record: only on a boosted task can a sensitive one turn out
differently. -/
def Taints.request (taint : Taints) (l : Label) (p : Pid) (t : TaskStruct) : Taint :=
  if taint p = .inherited ∧ (l.request K t).any Request.sensitive = true then .affected
  else (taint p).inherit (taint.donor t.piTopTask)

def recordTaint (s : State) (l : Label) (taint : Taints) : Taints :=
  match l.attrCall with
  | some (_, p) =>
      match s.task p with
      | some t => Function.update taint p (taint.request K l p t)
      | none => taint
  | none =>
      match l with
      | .mySetProcessPriority cpu priority =>
          if 101 ≤ priority ∧ priority ≤ 139 then Function.update taint (s.curr cpu) .affected
          else taint
      | .copyProcess cpu child => Function.update taint child (taint (s.curr cpu))
      | .rtMutexSetprio p piTask =>
          Function.update taint p ((taint p).inherit (taint.donor piTask))
      | _ => taint

/-! ## The relation between the two kernels -/

/-- What is known of the records of one task in the two kernels. -/
structure Agrees (taint : Taint) (t t' : TaskStruct) : Prop where
  cred : t.cred = t'.cred
  same : taint = .clean → t = t'
  core : taint ≠ .affected → t.core = t'.core
  fixed : taint ≠ .affected → t.myFixedPriority = 0

structure AgreesAt (taint : Taint) (o o' : Option TaskStruct) : Prop where
  exist : taint ≠ .affected → o.isSome = o'.isSome
  agrees : ∀ t ∈ o, ∀ t' ∈ o', Agrees taint t t'

/-- The patched kernel with its taints on the left, the other one on the right. -/
structure Extends (x : State × Taints) (s' : State) : Prop where
  curr : x.1.curr = s'.curr
  task : ∀ p, AgreesAt (x.2 p) (x.1.task p) (s'.task p)

/-- The relation after both kernels have taken a step. -/
abbrev StepExtends (x : State × Taints) (s' : State) (l : Label) : Prop :=
  Extends (instrument (step K .nextAfterPick) (recordTaint K) x l) (step K .none s' l)

theorem agreesAt_some {taint : Taint} {t t' : TaskStruct} (h : Agrees taint t t') :
    AgreesAt taint (some t) (some t') where
  exist _ := rfl
  agrees u hu u' hu' := by
    obtain rfl := Option.some.inj hu
    obtain rfl := Option.some.inj hu'
    exact h

theorem Agrees.affected {t t' : TaskStruct} (hcred : t.cred = t'.cred) :
    Agrees .affected t t' where
  cred := hcred
  same h := by simp at h
  core h := absurd rfl h
  fixed h := absurd rfl h

/-- The same function, applied on both sides, that reads the core and keeps the
credentials and the fixed priority. -/
theorem Agrees.map {taint : Taint} {t t' : TaskStruct} (h : Agrees taint t t')
    {f : TaskStruct → TaskStruct} (hcore : ∀ t, (f t.core).core = (f t).core)
    (hframe : ∀ t, (f t).cred = t.cred ∧ (f t).myFixedPriority = t.myFixedPriority) :
    Agrees taint (f t) (f t') where
  cred := by rw [(hframe t).1, (hframe t').1, h.cred]
  same hclean := by rw [h.same hclean]
  core htaint := core_congr (h.core htaint) (fun t ↦ (f t).core) hcore
  fixed htaint := by rw [(hframe t).2, h.fixed htaint]

theorem Extends.step_of_write {x : State × Taints} {s' : State} (h : Extends x s') {l : Label}
    (q : Pid) (w w' : Option TaskStruct) (hen : enabled x.1 l = true)
    (hen' : enabled s' l = true)
    (hw : taskWrite K .nextAfterPick x.1 l = w.map (Prod.mk q))
    (hw' : taskWrite K .none s' l = w'.map (Prod.mk q))
    (htaint : ∀ p, p ≠ q → recordTaint K x.1 l x.2 p = x.2 p)
    (hq : AgreesAt (recordTaint K x.1 l x.2 q) (w.or (x.1.task q)) (w'.or (s'.task q))) :
    StepExtends K x s' l where
  curr := by
    have hcurr : currStep x.1 l = currStep s' l := by
      cases l <;> simp only [currStep, h.curr]
    simp only [instrument_fst, step_of_enabled K _ hen, step_of_enabled K _ hen', hcurr]
  task p := by
    simp only [instrument_fst, instrument_snd, step_task_of_write K _ hen hw,
      step_task_of_write K _ hen' hw']
    by_cases hp : p = q
    · subst hp
      simpa using hq
    · rw [if_neg hp, if_neg hp, htaint p hp]
      exact h.task p

theorem Extends.step_of_change {x : State × Taints} {s' : State} (h : Extends x s') {l : Label}
    {q : Pid} {t t' : TaskStruct} (ht : x.1.task q = some t) (ht' : s'.task q = some t')
    (w w' : Option TaskStruct) (hen : enabled x.1 l = true) (hen' : enabled s' l = true)
    (hw : taskWrite K .nextAfterPick x.1 l = w.map (Prod.mk q))
    (hw' : taskWrite K .none s' l = w'.map (Prod.mk q))
    (htaint : ∀ p, p ≠ q → recordTaint K x.1 l x.2 p = x.2 p)
    (hq : Agrees (recordTaint K x.1 l x.2 q) (w.getD t) (w'.getD t')) :
    StepExtends K x s' l := by
  have hor : ∀ (o : Option TaskStruct) (r : TaskStruct), o.or (some r) = some (o.getD r) := by
    intro o r
    cases o <;> rfl
  refine h.step_of_write K q w w' hen hen' hw hw' htaint ?_
  rw [ht, ht', hor, hor]
  exact agreesAt_some hq

theorem Extends.agrees {x : State × Taints} {s' : State} (h : Extends x s') {p : Pid}
    {t t' : TaskStruct} (ht : x.1.task p = some t) (ht' : s'.task p = some t') :
    Agrees (x.2 p) t t' :=
  (h.task p).agrees t ht t' ht'

theorem AgreesAt.cases {taint : Taint} {o o' : Option TaskStruct} (h : AgreesAt taint o o')
    (hne : taint ≠ .affected) :
    (o = none ∧ o' = none) ∨ ∃ t t', o = some t ∧ o' = some t' ∧ Agrees taint t t' := by
  have hexist := h.exist hne
  cases o with
  | none =>
      cases o' with
      | none => exact .inl ⟨rfl, rfl⟩
      | some t' => simp at hexist
  | some t =>
      cases o' with
      | none => simp at hexist
      | some t' => exact .inr ⟨t, t', rfl, rfl, h.agrees t rfl t' rfl⟩

theorem AgreesAt.eq_of_clean {taint : Taint} {o o' : Option TaskStruct} (h : AgreesAt taint o o')
    (hclean : taint = .clean) : o = o' := by
  rcases h.cases (by simp [hclean]) with ⟨rfl, rfl⟩ | ⟨t, t', rfl, rfl, hagrees⟩
  · rfl
  · exact congrArg some (hagrees.same hclean)

theorem Extends.donorPrio {x : State × Taints} {s' : State} (h : Extends x s')
    {piTask : Option Pid} (hclean : x.2.donor piTask = .clean) :
    (piTask.bind x.1.task).map TaskStruct.prio = (piTask.bind s'.task).map TaskStruct.prio := by
  cases piTask with
  | none => rfl
  | some q => exact congrArg (Option.map TaskStruct.prio) ((h.task q).eq_of_clean hclean)

/-! ### One step -/

theorem extends_mySetProcessPriority {x : State × Taints} {s' : State} (h : Extends x s')
    {cpu : Cpu} {priority : ℤ} (hen : enabled x.1 (.mySetProcessPriority cpu priority) = true)
    (hen' : enabled s' (.mySetProcessPriority cpu priority) = true) :
    StepExtends K x s' (.mySetProcessPriority cpu priority) := by
  obtain ⟨t, ht⟩ : ∃ t, x.1.task (x.1.curr cpu) = some t := Option.isSome_iff_exists.mp hen
  obtain ⟨t', ht'⟩ : ∃ t', s'.task (s'.curr cpu) = some t' := Option.isSome_iff_exists.mp hen'
  rw [← h.curr] at ht'
  have hw := taskWrite_mySetProcessPriority K .nextAfterPick (by simp) ht priority
  have hagrees := h.agrees ht ht'
  by_cases hrange : 101 ≤ priority ∧ priority ≤ 139
  · have hcall := mySetProcessPriority_of_mem t hrange.1 hrange.2
    have htaint : recordTaint K x.1 (.mySetProcessPriority cpu priority) x.2 =
        Function.update x.2 (x.1.curr cpu) .affected := by
      simp [recordTaint, Label.attrCall, hrange]
    refine h.step_of_change K ht ht' _ none hen hen' hw rfl
      (fun p hp ↦ by simp [htaint, hp]) ?_
    rw [htaint, Function.update_self]
    apply Agrees.affected
    rw [Option.getD_none, ← hagrees.cred, hcall]
    rfl
  · have hcall := mySetProcessPriority_of_not_mem t (by omega : priority < 101 ∨ 139 < priority)
    have htaint : recordTaint K x.1 (.mySetProcessPriority cpu priority) x.2 = x.2 := by
      simp [recordTaint, Label.attrCall, hrange]
    refine h.step_of_change K ht ht' _ none hen hen' hw rfl (fun p _ ↦ by rw [htaint]) ?_
    rw [htaint, hcall]
    exact hagrees

theorem extends_schedule {x : State × Taints} {s' : State} (h : Extends x s') {cpu : Cpu}
    {preempt signalPending : Bool} {next : Pid}
    (hen : enabled x.1 (.schedule cpu preempt signalPending next) = true)
    (hen' : enabled s' (.schedule cpu preempt signalPending next) = true) :
    StepExtends K x s' (.schedule cpu preempt signalPending next) := by
  obtain ⟨t, ht⟩ := enabled_schedule hen
  obtain ⟨t', ht'⟩ := enabled_schedule hen'
  have hw : taskWrite K .nextAfterPick x.1 (.schedule cpu preempt signalPending next) =
      (some (applyFixedPriority t)).map (Prod.mk next) := by
    simp [taskWrite, Patch.target, ht]
  have hagrees := h.agrees ht ht'
  refine h.step_of_change K ht ht' _ none hen hen' hw rfl (fun _ _ ↦ rfl) ?_
  have htaint : recordTaint K x.1 (.schedule cpu preempt signalPending next) x.2 = x.2 := rfl
  rw [htaint]
  by_cases haffected : x.2 next = .affected
  · rw [haffected]
    apply Agrees.affected
    rw [Option.getD_none, ← hagrees.cred, Option.getD_some, applyFixedPriority_eq]
  · -- no call so far, hence nothing to assign
    have hzero := hagrees.fixed haffected
    rw [Option.getD_some, applyFixedPriority_of_eq_zero hzero]
    exact hagrees

theorem extends_setUserNice {x : State × Taints} {s' : State} (h : Extends x s') {p : Pid}
    {nice : ℤ} (hen : enabled x.1 (.setUserNice p nice) = true)
    (hen' : enabled s' (.setUserNice p nice) = true) :
    StepExtends K x s' (.setUserNice p nice) := by
  obtain ⟨t, ht⟩ : ∃ t, x.1.task p = some t := Option.isSome_iff_exists.mp hen
  obtain ⟨t', ht'⟩ : ∃ t', s'.task p = some t' := Option.isSome_iff_exists.mp hen'
  have hw : ∀ (patch : Patch) {s : State} {t : TaskStruct}, s.task p = some t →
      taskWrite K patch s (.setUserNice p nice) =
        (some (setUserNice K t nice)).map (Prod.mk p) := by
    intro patch s t ht
    simp [taskWrite, ht]
  refine h.step_of_change K ht ht' _ _ hen hen' (hw _ ht) (hw _ ht') (fun _ _ ↦ rfl) ?_
  exact (h.agrees ht ht').map (setUserNice_core K · nice) (setUserNice_frame K · nice)

theorem extends_nice {x : State × Taints} {s' : State} (h : Extends x s') {cpu : Cpu}
    {increment security : ℤ} (hen : enabled x.1 (.nice cpu increment security) = true)
    (hen' : enabled s' (.nice cpu increment security) = true) :
    StepExtends K x s' (.nice cpu increment security) := by
  obtain ⟨t, ht⟩ : ∃ t, x.1.task (x.1.curr cpu) = some t := Option.isSome_iff_exists.mp hen
  obtain ⟨t', ht'⟩ : ∃ t', s'.task (s'.curr cpu) = some t' := Option.isSome_iff_exists.mp hen'
  have hw : taskWrite K .nextAfterPick x.1 (.nice cpu increment security) =
      (sysNice K t increment security).toOption.map (Prod.mk (x.1.curr cpu)) :=
    State.change_eq ht ht _
  have hw' : taskWrite K .none s' (.nice cpu increment security) =
      (sysNice K t' increment security).toOption.map (Prod.mk (x.1.curr cpu)) := by
    rw [h.curr]
    exact State.change_eq ht' ht' _
  rw [← h.curr] at ht'
  refine h.step_of_change K ht ht' _ _ hen hen' hw hw' (fun _ _ ↦ rfl) ?_
  exact (h.agrees ht ht').map (fun t ↦ sysNice_core K t increment security)
    (fun t ↦ sysNice_frame K t increment security)

theorem extends_copyProcessTail {x : State × Taints} {s' : State} (h : Extends x s')
    {child : Pid} (hen : enabled x.1 (.copyProcessTail child) = true)
    (hen' : enabled s' (.copyProcessTail child) = true) :
    StepExtends K x s' (.copyProcessTail child) := by
  obtain ⟨t, ht⟩ := (enabled_copyProcessTail hen).1
  obtain ⟨t', ht'⟩ := (enabled_copyProcessTail hen').1
  have hw : ∀ (patch : Patch) {s : State} {t : TaskStruct}, s.task child = some t →
      taskWrite K patch s (.copyProcessTail child) =
        (some (copyProcessTail K patch t)).map (Prod.mk child) := by
    intro patch s t ht
    simp [taskWrite, ht]
  have hagrees := h.agrees ht ht'
  refine h.step_of_change K ht ht' _ _ hen hen' (hw _ ht) (hw _ ht') (fun _ _ ↦ rfl) ?_
  have htaint : recordTaint K x.1 (.copyProcessTail child) x.2 = x.2 := rfl
  rw [htaint, Option.getD_some, Option.getD_some]
  have hframe : ∀ t, (uclampPostFork K t).cred = t.cred ∧
      (uclampPostFork K t).myFixedPriority = t.myFixedPriority := by
    intro t
    obtain ⟨lo, heq⟩ := uclampPostFork_frame K t
    rw [heq]
    exact ⟨rfl, rfl⟩
  have hpost : Agrees (x.2 child) (uclampPostFork K t) (uclampPostFork K t') :=
    hagrees.map (fun t ↦ (uclampPostFork_core K t.core).trans (uclampPostFork_core K t).symm) hframe
  have hnone : copyProcessTail K .none t' = uclampPostFork K t' := rfl
  rw [hnone]
  by_cases haffected : x.2 child = .affected
  · rw [haffected]
    exact Agrees.affected hpost.cred
  · -- the reset writes the value that is there
    have hreset : copyProcessTail K .nextAfterPick t = uclampPostFork K t := by
      have hzero := hpost.fixed haffected
      show { uclampPostFork K t with myFixedPriority := 0 } = uclampPostFork K t
      rw [← hzero]
    rw [hreset]
    exact hpost

theorem extends_rtMutexSetprio {x : State × Taints} {s' : State} (h : Extends x s') {p : Pid}
    {piTask : Option Pid} (hen : enabled x.1 (.rtMutexSetprio p piTask) = true)
    (hen' : enabled s' (.rtMutexSetprio p piTask) = true) :
    StepExtends K x s' (.rtMutexSetprio p piTask) := by
  obtain ⟨t, ht⟩ : ∃ t, x.1.task p = some t := by
    simp only [enabled, Bool.and_eq_true] at hen
    exact Option.isSome_iff_exists.mp hen.1
  obtain ⟨t', ht'⟩ : ∃ t', s'.task p = some t' := by
    simp only [enabled, Bool.and_eq_true] at hen'
    exact Option.isSome_iff_exists.mp hen'.1
  have hw : ∀ (patch : Patch) {s : State} {t : TaskStruct}, s.task p = some t →
      taskWrite K patch s (.rtMutexSetprio p piTask) =
        (some (rtMutexSetprio (K.isIdleThread p) t piTask
          ((piTask.bind s.task).map TaskStruct.prio))).map (Prod.mk p) := by
    intro patch s t ht
    simp [taskWrite, ht]
  have hframe : ∀ (t : TaskStruct) (prio : Option ℤ),
      (rtMutexSetprio (K.isIdleThread p) t piTask prio).cred = t.cred ∧
      (rtMutexSetprio (K.isIdleThread p) t piTask prio).myFixedPriority = t.myFixedPriority := by
    intro t prio
    obtain ⟨_, _, _, heq⟩ := rtMutexSetprio_frame (K.isIdleThread p) t piTask prio
    rw [heq]
    exact ⟨rfl, rfl⟩
  have htaint : recordTaint K x.1 (.rtMutexSetprio p piTask) x.2 =
      Function.update x.2 p ((x.2 p).inherit (x.2.donor piTask)) := rfl
  have hagrees := h.agrees ht ht'
  refine h.step_of_change K ht ht' _ _ hen hen' (hw _ ht) (hw _ ht')
    (fun q hq ↦ by simp [htaint, hq]) ?_
  rw [htaint, Function.update_self, Option.getD_some, Option.getD_some]
  have hcore : x.2 p ≠ .affected → { t with piTopTask := piTask }.core =
      { t' with piTopTask := piTask }.core := fun hne ↦
    congrArg (fun r : TaskStruct ↦ { r with piTopTask := piTask }) (hagrees.core hne)
  refine ⟨?_, fun hclean ↦ ?_, fun hne ↦ ?_, fun hne ↦ ?_⟩
  · rw [(hframe t _).1, (hframe t' _).1, hagrees.cred]
  · obtain ⟨hown, hdonor⟩ := Taint.inherit_eq_clean hclean
    rw [h.donorPrio hdonor, hagrees.same hown]
  · rw [rtMutexSetprio_core, rtMutexSetprio_core, hcore (Taint.ne_affected_of_inherit hne)]
  · rw [(hframe t _).2, hagrees.fixed (Taint.ne_affected_of_inherit hne)]

theorem extends_copyProcess {x : State × Taints} {s' : State} (h : Extends x s') {cpu : Cpu}
    {child : Pid} (hen : enabled x.1 (.copyProcess cpu child) = true)
    (hen' : enabled s' (.copyProcess cpu child) = true) :
    StepExtends K x s' (.copyProcess cpu child) := by
  have hw : ∀ (patch : Patch) {s : State} {t : TaskStruct}, s.task (s.curr cpu) = some t →
      taskWrite K patch s (.copyProcess cpu child) =
        (copyProcess K t).toOption.map (Prod.mk child) := by
    intro patch s t ht
    simp [taskWrite, ht]
  obtain ⟨⟨t, ht⟩, hfresh⟩ := enabled_copyProcess hen
  obtain ⟨⟨t', ht'⟩, hfresh'⟩ := enabled_copyProcess hen'
  have hagrees : Agrees (x.2 (x.1.curr cpu)) t t' := h.agrees ht (by rw [h.curr]; exact ht')
  have htaint : recordTaint K x.1 (.copyProcess cpu child) x.2 =
      Function.update x.2 child (x.2 (x.1.curr cpu)) := rfl
  refine h.step_of_write K child _ _ hen hen' (hw _ ht) (hw _ ht')
    (fun p hp ↦ by simp [htaint, hp]) ?_
  rw [htaint, Function.update_self, hfresh, hfresh', Option.or_none, Option.or_none]
  have hmap : x.2 (x.1.curr cpu) ≠ .affected →
      (copyProcess K t).toOption.map TaskStruct.core =
        (copyProcess K t').toOption.map TaskStruct.core := fun hne ↦
    core_congr (hagrees.core hne) (fun t ↦ (copyProcess K t).toOption.map TaskStruct.core)
      (copyProcess_core K)
  refine ⟨fun hne ↦ ?_, fun u hu u' hu' ↦ ?_⟩
  · simpa using congrArg Option.isSome (hmap hne)
  · obtain ⟨hcred, hfixed⟩ := copyProcess_frame K (toOption_eq_some hu)
    obtain ⟨hcred', _⟩ := copyProcess_frame K (toOption_eq_some hu')
    refine ⟨by rw [hcred, hcred', hagrees.cred], fun hclean ↦ ?_, fun hne ↦ ?_, fun hne ↦ ?_⟩
    · have hsame := hagrees.same hclean
      subst hsame
      exact Option.some.inj (hu.symm.trans hu')
    · have hcore := hmap hne
      rw [Option.mem_def.mp hu, Option.mem_def.mp hu'] at hcore
      exact Option.some.inj hcore
    · rw [hfixed, hagrees.fixed hne]

def requested (l : Label) (s : State) (p : Pid) (current t : TaskStruct) : Option TaskStruct :=
  (l.request K t).bind fun r ↦ (r.apply K s p current t).toOption

theorem requested_frame (l : Label) (s : State) (p : Pid) (current t : TaskStruct) :
    ((requested K l s p current t).getD t).cred = t.cred ∧
      ((requested K l s p current t).getD t).myFixedPriority = t.myFixedPriority := by
  cases hreq : requested K l s p current t with
  | none => exact ⟨rfl, rfl⟩
  | some u =>
      obtain ⟨r, _, hok⟩ := Option.bind_eq_some_iff.mp hreq
      have heffect := __schedSetscheduler_effect K (toOption_eq_some hok)
      exact ⟨heffect.cred, heffect.myFixedPriority⟩

theorem requested_core {l : Label} {s s' : State} (p : Pid) {current current' t t' : TaskStruct}
    (hcred : current.cred = current'.cred) (hcore : t.core = t'.core)
    (hsafe : t = t' ∨ (l.request K t).any Request.sensitive = false) :
    ((requested K l s p current t).getD t).core =
      ((requested K l s' p current' t').getD t').core := by
  have hrequest : l.request K t = l.request K t' :=
    core_congr hcore (l.request K ·) (request_core K · l)
  have hmap : (requested K l s p current t).map TaskStruct.core =
      (requested K l s' p current' t').map TaskStruct.core := by
    unfold requested
    rw [← hrequest]
    cases hr : l.request K t with
    | none => rfl
    | some r =>
        refine __schedSetscheduler_core K r hcred hcore (hsafe.imp_right fun hany ↦ ?_) _ _ _
        simpa [hr] using hany
  have hgetD := congrArg (Option.getD · t.core) hmap
  rw [Option.getD_map, hcore, Option.getD_map] at hgetD
  exact hgetD

theorem requested_cred {l : Label} {s s' : State} (p : Pid) {current current' t : TaskStruct}
    (hcred : current.cred = current'.cred) (hprio : s.piTaskPrio t = s'.piTaskPrio t) :
    requested K l s p current t = requested K l s' p current' t := by
  simp only [requested, Request.apply, __schedSetscheduler, earlyChecks_cred K _ hcred, hprio]

theorem extends_attrCall {x : State × Taints} {s' : State} (h : Extends x s') {l : Label}
    {cpu : Cpu} {p : Pid} (hcall : l.attrCall = some (cpu, p)) (hen : enabled x.1 l = true)
    (hen' : enabled s' l = true) :
    StepExtends K x s' l := by
  obtain ⟨⟨current, hcur⟩, t, ht⟩ := enabled_attrCall hcall hen
  obtain ⟨⟨current', hcur'⟩, t', ht'⟩ := enabled_attrCall hcall hen'
  have hcred : current.cred = current'.cred :=
    (h.agrees hcur (by rw [h.curr]; exact hcur')).cred
  have hagrees := h.agrees ht ht'
  have hw : taskWrite K .nextAfterPick x.1 l =
      (requested K l x.1 p current t).map (Prod.mk p) := by
    rw [taskWrite_of_attrCall K _ hcall]
    exact State.change_eq hcur ht _
  have hw' : taskWrite K .none s' l = (requested K l s' p current' t').map (Prod.mk p) := by
    rw [taskWrite_of_attrCall K _ hcall]
    exact State.change_eq hcur' ht' _
  have htaint : recordTaint K x.1 l x.2 = Function.update x.2 p (x.2.request K l p t) := by
    simp [recordTaint, hcall, ht]
  refine h.step_of_change K ht ht' _ _ hen hen' hw hw' (fun q hq ↦ by simp [htaint, hq]) ?_
  rw [htaint, Function.update_self]
  obtain ⟨hcred₁, hfixed₁⟩ := requested_frame K l x.1 p current t
  obtain ⟨hcred₂, _⟩ := requested_frame K l s' p current' t'
  unfold Taints.request
  split
  · exact Agrees.affected (by rw [hcred₁, hcred₂, hagrees.cred])
  · rename_i hsafe
    refine ⟨by rw [hcred₁, hcred₂, hagrees.cred], fun hclean ↦ ?_, fun hne ↦ ?_, fun hne ↦ ?_⟩
    · obtain ⟨hown, hdonor⟩ := Taint.inherit_eq_clean hclean
      have hsame := hagrees.same hown
      subst hsame
      rw [requested_cred K p hcred (h.donorPrio hdonor)]
    · have hown := Taint.ne_affected_of_inherit hne
      refine requested_core K p hcred (hagrees.core hown) ?_
      cases hp : x.2 p with
      | clean => exact .inl (hagrees.same hp)
      | inherited =>
          right
          simpa [hp] using hsafe
      | affected => exact absurd hp hown
    · rw [hfixed₁, hagrees.fixed (Taint.ne_affected_of_inherit hne)]

theorem Extends.step_of_enabled {x : State × Taints} {s' : State} (h : Extends x s') {l : Label}
    (hen : enabled x.1 l = true) (hen' : enabled s' l = true) :
    StepExtends K x s' l := by
  have hsilent : taskWrite K .nextAfterPick x.1 l = none → taskWrite K .none s' l = none →
      recordTaint K x.1 l x.2 = x.2 →
      StepExtends K x s' l :=
    fun hw hw' htaint ↦ h.step_of_write K 0 none none hen hen' hw hw'
      (fun _ _ ↦ by rw [htaint]) (by rw [htaint]; exact h.task 0)
  cases l with
  | mySetProcessPriority cpu priority => exact extends_mySetProcessPriority K h hen hen'
  | schedule cpu preempt signalPending next => exact extends_schedule K h hen hen'
  | setUserNice p nice => exact extends_setUserNice K h hen hen'
  | nice cpu increment security => exact extends_nice K h hen hen'
  | schedSetscheduler cpu p attr user pi env => exact extends_attrCall K h rfl hen hen'
  | sysSchedSetscheduler cpu p policy priority env => exact extends_attrCall K h rfl hen hen'
  | sysSchedSetparam cpu p priority env => exact extends_attrCall K h rfl hen hen'
  | sysSchedSetattr cpu p size uattr env => exact extends_attrCall K h rfl hen hen'
  | copyProcess cpu child => exact extends_copyProcess K h hen hen'
  | copyProcessTail child => exact extends_copyProcessTail K h hen hen'
  | rtMutexSetprio p piTask => exact extends_rtMutexSetprio K h hen hen'
  | wakeUpNewTask child => exact hsilent rfl rfl rfl
  | setCurrentState cpu state => exact hsilent rfl rfl rfl
  | tryToWakeUp p => exact hsilent rfl rfl rfl

/-! ## Runs -/

/-- The steps are taken one after the other, each where the kernel can take it. -/
def Legal (patch : Patch) (s : State) (ls : List Label) : Prop :=
  Along (step K patch) (fun s l ↦ enabled s l = true) s ls

/-- The taints after a run of the patched kernel that starts without a call. -/
def taintsAfter (s : State) (ls : List Label) : Taints :=
  (run (instrument (step K .nextAfterPick) (recordTaint K)) (s, fun _ ↦ .clean) ls).2

structure SameScheduling (t t' : TaskStruct) : Prop where
  policy : t.policy = t'.policy
  staticPrio : t.staticPrio = t'.staticPrio
  normalPrio : t.normalPrio = t'.normalPrio
  rtPriority : t.rtPriority = t'.rtPriority
  seLoad : t.seLoad = t'.seLoad
  schedResetOnFork : t.schedResetOnFork = t'.schedResetOnFork

theorem SameScheduling.of_core {t t' : TaskStruct} (h : t.core = t'.core) :
    SameScheduling t t' where
  policy := core_congr h TaskStruct.policy fun _ ↦ rfl
  staticPrio := core_congr h TaskStruct.staticPrio fun _ ↦ rfl
  normalPrio := core_congr h TaskStruct.normalPrio fun _ ↦ rfl
  rtPriority := core_congr h TaskStruct.rtPriority fun _ ↦ rfl
  seLoad := core_congr h TaskStruct.seLoad fun _ ↦ rfl
  schedResetOnFork := core_congr h TaskStruct.schedResetOnFork fun _ ↦ rfl

theorem extends_refl {s : State} (hfixed : s.AllTasks fun _ t ↦ t.myFixedPriority = 0) :
    Extends (s, fun _ ↦ .clean) s where
  curr := rfl
  task p := by
    refine ⟨fun _ ↦ rfl, fun t ht t' ht' ↦ ?_⟩
    obtain rfl : t = t' := Option.some.inj (ht.symm.trans ht')
    exact ⟨rfl, fun _ ↦ rfl, fun _ ↦ rfl, fun _ ↦ hfixed p t ht⟩

/-- The patch extends the scheduler conservatively: in corresponding states of the two
runs every task that no call can have affected has the same scheduling fields, and
the same record if it has not inherited a priority either. -/
theorem patch_conservative (s : State) (ls : List Label)
    (hfixed : s.AllTasks fun _ t ↦ t.myFixedPriority = 0)
    (hlegal : Legal K .nextAfterPick s ls) (hlegal' : Legal K .none s ls) (k : ℕ) (p : Pid) :
    (taintsAfter K s (ls.take k) p ≠ .affected →
        Option.Rel SameScheduling ((run (step K .nextAfterPick) s (ls.take k)).task p)
          ((run (step K .none) s (ls.take k)).task p)) ∧
      (taintsAfter K s (ls.take k) p = .clean →
        (run (step K .nextAfterPick) s (ls.take k)).task p =
          (run (step K .none) s (ls.take k)).task p) := by
  have hstep : ∀ (x : State × Taints) (s' : State) (l m : Label), Extends x s' → l = m →
      enabled x.1 l = true → enabled s' m = true →
      Extends (instrument (step K .nextAfterPick) (recordTaint K) x l) (step K .none s' m) := by
    rintro x s' l _ h rfl hen hen'
    exact h.step_of_enabled K hen hen'
  have hinstrumented : Along (instrument (step K .nextAfterPick) (recordTaint K))
      (fun x l ↦ enabled x.1 l = true) (s, fun _ ↦ .clean) ls :=
    (along_instrument _ _ fun s l ↦ enabled s l = true).mpr hlegal
  have hext := run_related hstep (extends_refl hfixed) (List.forall₂_same.mpr fun _ _ ↦ rfl)
    hinstrumented hlegal' k
  have hp := hext.task p
  rw [run_instrument_fst] at hp
  refine ⟨fun hne ↦ ?_, hp.eq_of_clean⟩
  rcases hp.cases hne with ⟨ht, ht'⟩ | ⟨t, t', ht, ht', hagrees⟩
  · rw [ht, ht']
    exact .none
  · rw [ht, ht']
    exact .some (.of_core (hagrees.core hne))

/-- A caller, a bystander, and an administrator. -/
def trioMachine : State :=
  .ofTasks [normalTask .linux 0 .user, normalTask .linux 0 .user, normalTask .linux 0 .root]

theorem trioMachine_fixed : trioMachine.AllTasks fun _ t ↦ t.myFixedPriority = 0 :=
  State.allTasks_ofTasks fun t ht _ ↦ by
    simp only [List.mem_cons, List.not_mem_nil, or_false] at ht
    rcases ht with rfl | rfl | rfl <;> rfl

def normalRequest (nice : ℤ) : SchedAttr := ⟨0, 0, nice, 0, 0, 0, 0, 0, 0⟩

def deadlineRequest : SchedAttr := ⟨6, 0, 0, 0, 10000000, 30000000, 30000000, 0, 0⟩

/-- The bystander owns a mutex the caller waits for, and is reniced meanwhile. -/
def boostAndRenice : List Label :=
  [.mySetProcessPriority 0 101, .schedule 0 false false 0, .rtMutexSetprio 1 (some 0),
    .sysSchedSetattr 2 1 48 (normalRequest 5) ⟨0, false, false, false⟩]

theorem patch_conservative_boosted :
    taintsAfter .linux trioMachine boostAndRenice 1 = .inherited ∧
      ((run (step .linux .nextAfterPick) trioMachine boostAndRenice).task 1).map
        TaskStruct.staticPrio = some 125 ∧
      Option.Rel SameScheduling
        ((run (step .linux .nextAfterPick) trioMachine boostAndRenice).task 1)
        ((run (step .linux .none) trioMachine boostAndRenice).task 1) := by
  have htaint : taintsAfter .linux trioMachine boostAndRenice 1 = .inherited := by decide
  refine ⟨htaint, by decide, ?_⟩
  have hlegal : Legal .linux .nextAfterPick trioMachine boostAndRenice := by
    refine ⟨?_, ?_, ?_, ?_, trivial⟩ <;> decide
  have hlegal' : Legal .linux .none trioMachine boostAndRenice := by
    refine ⟨?_, ?_, ?_, ?_, trivial⟩ <;> decide
  have hne : taintsAfter .linux trioMachine (boostAndRenice.take 4) 1 ≠ .affected := by decide
  exact (patch_conservative .linux trioMachine boostAndRenice trioMachine_fixed hlegal hlegal' 4
    1).1 hne

/-- The administrator makes the caller a deadline task; with the fixed priority it may
leave that policy, without it may not. The bystander inherits the priority, and
admission control refuses to renice a task with a deadline priority. -/
def leaveDeadline : List Label :=
  [.mySetProcessPriority 0 101, .schedule 0 false false 0,
    .sysSchedSetattr 2 0 48 deadlineRequest ⟨0, false, false, false⟩,
    .sysSchedSetattr 0 0 48 (normalRequest (-5)) ⟨0, false, false, false⟩,
    .rtMutexSetprio 1 (some 0),
    .sysSchedSetattr 2 1 48 (normalRequest 5) ⟨0, false, false, true⟩]

/-- A task that has made no call, and has no ancestors, with two static priorities. -/
theorem leaveDeadline_differs :
    (trioMachine.AllTasks fun _ t ↦ t.myFixedPriority = 0) ∧
      Legal .linux .nextAfterPick trioMachine leaveDeadline ∧
      Legal .linux .none trioMachine leaveDeadline ∧
      (∀ l ∈ leaveDeadline, ∀ cpu priority, l = .mySetProcessPriority cpu priority →
        cpu = 0) ∧
      (run (instrument (step .linux .nextAfterPick) recordCall) (trioMachine, fun _ ↦ none)
        leaveDeadline).2 1 = none ∧
      ((run (step .linux .nextAfterPick) trioMachine leaveDeadline).task 1).map
        TaskStruct.staticPrio = some 125 ∧
      ((run (step .linux .none) trioMachine leaveDeadline).task 1).map
        TaskStruct.staticPrio = some 120 := by
  refine ⟨trioMachine_fixed, ?_, ?_, ?_, by decide, by decide, by decide⟩
  · refine ⟨?_, ?_, ?_, ?_, ?_, ?_, trivial⟩ <;> decide
  · refine ⟨?_, ?_, ?_, ?_, ?_, ?_, trivial⟩ <;> decide
  · simp [leaveDeadline]

end NcuKernel.Sched
