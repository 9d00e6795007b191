import NcuKernel.Sched.Objective

/-!
# A call from entry to return

Between the write of `my_set_process_priority` and its return any number of steps of
other tasks can happen, and the assignment to the caller is made by whichever CPU
switches to it. The field keeps its value all that time, because only the caller
writes it; the static priority has it from the switch on.
-/

namespace NcuKernel.Sched

open Runs

variable (K : Kernel)

/-! ## Steps that leave a task alone -/

/-- The step is not a call of `my_set_process_priority` by the task. -/
def NoCallBy (p : Pid) (s : State) : Label → Prop
  | .mySetProcessPriority cpu _ => s.curr cpu ≠ p
  | _ => True

/-- The step is no call, by any task, that can set the nice value or the policy of `p`. -/
def NotReniced (p : Pid) (s : State) : Label → Prop
  | .setUserNice q _ => q ≠ p
  | .nice cpu _ _ => s.curr cpu ≠ p
  | l => ∀ cpu, l.attrCall ≠ some (cpu, p)

/-- What such a step can still do to the task: assign its fixed priority, finish the fork
that makes it, or move a boost. -/
theorem Change.of_notReniced {patch : Patch} {s : State} {l : Label} {p : Pid}
    {t t' : TaskStruct} (hc : Change K patch s l p t t') (hcall : NoCallBy p s l)
    (hnice : NotReniced p s l) :
    (∃ cpu preempt signalPending next, l = .schedule cpu preempt signalPending next ∧
      patch.target s cpu next = some p ∧ t' = applyFixedPriority t) ∨
    (l = .copyProcessTail p ∧ t' = copyProcessTail K patch t) ∨
    (∃ piTask prio schedClass top, l = .rtMutexSetprio p piTask ∧
      t' = { t with prio := prio, schedClass := schedClass, piTopTask := top }) := by
  cases hc with
  | fixed => exact absurd rfl hcall
  | assigned htarget => exact .inl ⟨_, _, _, _, rfl, htarget, rfl⟩
  | reniced => exact absurd rfl hnice
  | selfReniced => exact absurd rfl hnice
  | attributed _ _ _ _ _ hattr =>
      cases l with
      | schedSetscheduler => exact absurd hattr (hnice _)
      | sysSchedSetscheduler => exact absurd hattr (hnice _)
      | sysSchedSetparam => exact absurd hattr (hnice _)
      | sysSchedSetattr => exact absurd hattr (hnice _)
      | _ => simp [Label.attrCall] at hattr
  | finished => exact .inr (.inl ⟨rfl, rfl⟩)
  | boosted =>
      obtain ⟨prio, schedClass, top, heq⟩ := rtMutexSetprio_frame _ t _ _
      exact .inr (.inr ⟨_, prio, schedClass, top, rfl, heq⟩)

/-! ## The caller while it does not run -/

/-- The task has fixed the priority `x`. -/
structure Pending (p : Pid) (x : ℤ) (s : State) : Prop where
  woken : s.clone p = .none
  task : ∃ t, s.task p = some t ∧ t.myFixedPriority = x ∧ StaticPrioInRange t

theorem Pending.step {p : Pid} {x : ℤ} {s : State} {l : Label} (h : Pending p x s)
    (hchecked : l.NiceChecked s) (hcall : NoCallBy p s l) :
    Pending p x (step K .nextAfterPick s l) := by
  obtain ⟨t, ht, hfixed, hrange⟩ := h.task
  refine ⟨step_clone_of_none K _ (by simp [ht]) h.woken l, ?_⟩
  obtain ⟨t', ht', rfl | ⟨hen, hc⟩⟩ := step_task_of_some K .nextAfterPick ht l
  · exact ⟨t', ht', hfixed, hrange⟩
  · refine ⟨t', ht', ?_, hc.staticPrio_mem K _ hchecked ht hrange⟩
    rcases hc.myFixedPriority K _ with heq | ⟨cpu, _, rfl, hp, _⟩ | ⟨rfl, _⟩
    · rw [heq]
      exact hfixed
    · exact absurd hp.symm hcall
    · -- a task that has been woken is past the end of `copy_process`
      simp [enabled, h.woken] at hen

/-- The task has been given the priority it fixed. -/
structure Settled (p : Pid) (x : ℤ) (s : State) : Prop where
  pending : Pending p x s
  static : ∀ t, s.task p = some t → t.staticPrio = x

theorem Settled.step {p : Pid} {x : ℤ} {s : State} {l : Label} (h : Settled p x s)
    (hchecked : l.NiceChecked s) (hcall : NoCallBy p s l) (hnice : NotReniced p s l) :
    Settled p x (step K .nextAfterPick s l) := by
  refine ⟨h.pending.step K hchecked hcall, fun v hv ↦ ?_⟩
  obtain ⟨t, ht, hfixed, _⟩ := h.pending.task
  have hstatic := h.static t ht
  obtain ⟨t', ht', hstep⟩ := step_task_of_some K .nextAfterPick ht l
  obtain rfl : t' = v := Option.some.inj (ht'.symm.trans hv)
  rcases hstep with rfl | ⟨hen, hc⟩
  · exact hstatic
  · rcases hc.of_notReniced K hcall hnice with
      ⟨_, _, _, _, _, _, rfl⟩ | ⟨rfl, _⟩ | ⟨_, _, _, _, _, rfl⟩
    · rcases applyFixedPriority_staticPrio t with heq | ⟨_, _, heq⟩
      · rw [heq, hstatic]
      · rw [heq, hfixed]
    · simp [enabled, h.pending.woken] at hen
    · exact hstatic

/-- Whichever CPU switches to the caller, and also when it goes on with it, assigns the
priority. -/
theorem Pending.settled_of_selected {p : Pid} {x : ℤ} {s : State} (h : Pending p x s)
    (hlo : 101 ≤ x) (hhi : x ≤ 139) {cpu : Cpu} {preempt signalPending : Bool}
    (hen : enabled s (.schedule cpu preempt signalPending p) = true) :
    Settled p x (Sched.step K .nextAfterPick s (.schedule cpu preempt signalPending p)) := by
  refine ⟨h.step K trivial trivial, fun t' ht' ↦ ?_⟩
  obtain ⟨t, ht, hfixed, hrange⟩ := h.task
  have hassigned := step_schedule_next K hen ht
  obtain rfl : applyFixedPriority t = t' := Option.some.inj (hassigned.symm.trans ht')
  have h0 : t.staticPrio ≠ 0 := by
    have hpos : 100 ≤ t.staticPrio := hrange.1
    omega
  rw [applyFixedPriority_of_mem h0 (by omega) (by omega)]
  exact hfixed

/-! ## The call -/

/-- A step while the task is inside the call. -/
def WhileInCall (p : Pid) (s : State) (l : Label) : Prop := l.NiceChecked s ∧ NoCallBy p s l

/-- The state when the `__schedule` step has run that selects the caller. -/
def switchedIn (s : State) (cpu : Cpu) (priority : ℤ) (before : List Label) (resumeCpu : Cpu)
    (preempt signalPending : Bool) : State :=
  step K .nextAfterPick
    (run (step K .nextAfterPick) s (.mySetProcessPriority cpu priority :: before))
    (.schedule resumeCpu preempt signalPending (s.curr cpu))

/-- What can happen from the write of a call by the task on `cpu` to its return: any steps,
a `__schedule` step on some CPU that selects the caller, and any steps again. -/
structure CallRun (s : State) (cpu : Cpu) (priority : ℤ) where
  before : List Label
  resumeCpu : Cpu
  preempt : Bool
  signalPending : Bool
  after : List Label
  others_before : Along (step K .nextAfterPick) (WhileInCall (s.curr cpu))
    (step K .nextAfterPick s (.mySetProcessPriority cpu priority)) before
  selected : enabled
    (run (step K .nextAfterPick) s (.mySetProcessPriority cpu priority :: before))
    (.schedule resumeCpu preempt signalPending (s.curr cpu)) = true
  others_after : Along (step K .nextAfterPick) (WhileInCall (s.curr cpu))
    (switchedIn K s cpu priority before resumeCpu preempt signalPending) after

namespace CallRun

variable {K} {s : State} {cpu : Cpu} {priority : ℤ}

def resumed (r : CallRun K s cpu priority) : State :=
  switchedIn K s cpu priority r.before r.resumeCpu r.preempt r.signalPending

def returned (r : CallRun K s cpu priority) : State :=
  run (step K .nextAfterPick) r.resumed r.after

/-- Nobody renices the caller between the switch to it and its return. -/
def NotRenicedAfter (r : CallRun K s cpu priority) : Prop :=
  Along (step K .nextAfterPick) (NotReniced (s.curr cpu)) r.resumed r.after

end CallRun

theorem pending_of_call {s : State} {cpu : Cpu} {t : TaskStruct} {priority : ℤ}
    (hlife : Lifecycle s) (ht : s.task (s.curr cpu) = some t) (hrange : StaticPrioInRange t)
    (hlo : 101 ≤ priority) (hhi : priority ≤ 139) :
    Pending (s.curr cpu) priority
      (step K .nextAfterPick s (.mySetProcessPriority cpu priority)) := by
  exact ⟨step_clone_of_none K _ (by simp [ht]) (hlife.clone_curr cpu) _,
    { t with myFixedPriority := priority },
    step_mySetProcessPriority K _ (by simp) ht hlo hhi, rfl, hrange⟩

namespace CallRun

variable {K} {s : State} {cpu : Cpu} {priority : ℤ} (r : CallRun K s cpu priority)

theorem settled_resumed (hlo : 101 ≤ priority) (hhi : priority ≤ 139)
    (h : Pending (s.curr cpu) priority
      (step K .nextAfterPick s (.mySetProcessPriority cpu priority))) :
    Settled (s.curr cpu) priority r.resumed := by
  have hpending := run_of_along (fun s' l hs hl ↦ Pending.step K hs hl.1 hl.2) h r.others_before
  exact hpending.settled_of_selected K hlo hhi r.selected

theorem pending_returned (h : Settled (s.curr cpu) priority r.resumed) :
    Pending (s.curr cpu) priority r.returned :=
  run_of_along (fun _ _ hs hl ↦ Pending.step K hs hl.1 hl.2) h.pending r.others_after

theorem settled_returned (h : Settled (s.curr cpu) priority r.resumed)
    (hnice : r.NotRenicedAfter) : Settled (s.curr cpu) priority r.returned :=
  run_of_along (fun _ _ hs hl ↦ Settled.step K hs hl.1.1 hl.1.2 hl.2) h
    (r.others_after.and hnice)

end CallRun

/-- A call with an argument out of range returns 0 and changes nothing. Any other call
returns 1, and when it returns the caller has fixed the argument and, unless it was reniced
after the last switch to it, runs with it as static priority. -/
theorem mySetProcessPriority_end_to_end (s : State) (cpu : Cpu) (x : ℤ) (t : TaskStruct)
    (hlife : Lifecycle s) (ht : s.task (s.curr cpu) = some t) (hrange : StaticPrioInRange t) :
    (x < 101 ∨ 139 < x → (mySetProcessPriority t x).2 = 0 ∧
      step K .nextAfterPick s (.mySetProcessPriority cpu x) = s) ∧
    (101 ≤ x ∧ x ≤ 139 → (mySetProcessPriority t x).2 = 1 ∧
      ∀ r : CallRun K s cpu x, ∃ t', r.returned.task (s.curr cpu) = some t' ∧
        t'.myFixedPriority = x ∧
        (r.NotRenicedAfter → t'.staticPrio = x ∧ taskNice t' = x - 120)) := by
  refine ⟨fun hout ↦ ?_, fun ⟨hlo, hhi⟩ ↦ ?_⟩
  · refine ⟨?_, step_mySetProcessPriority_of_not_mem K _ (by simp) ht hout⟩
    rw [mySetProcessPriority_of_not_mem t hout]
  · refine ⟨by rw [mySetProcessPriority_of_mem t hlo hhi], fun r ↦ ?_⟩
    have hresumed := r.settled_resumed hlo hhi (pending_of_call K hlife ht hrange hlo hhi)
    obtain ⟨t', ht', hfixed, _⟩ := (r.pending_returned hresumed).task
    refine ⟨t', ht', hfixed, fun hnice ↦ ?_⟩
    have hstatic := (r.settled_returned hresumed hnice).static t' ht'
    exact ⟨hstatic, by rw [taskNice, prioToNice, hstatic]⟩

/-- Task 0 fixes 110. Task 2 forks task 1, which takes CPU 0 away from task 0 and fixes a
priority of its own; task 0 is reniced, resumes on CPU 1 and is selected there again. -/
def migratedCall : CallRun .linux evenMachine 0 110 where
  before := [.copyProcess 1 1, .copyProcessTail 1, .wakeUpNewTask 1, .schedule 0 false false 1,
    .setUserNice 0 5]
  resumeCpu := 1
  preempt := true
  signalPending := false
  after := [.mySetProcessPriority 0 139, .schedule 1 true false 0]
  others_before := by simp [WhileInCall, Label.NiceChecked, NoCallBy]
  selected := by decide
  others_after := ⟨⟨trivial, Nat.one_ne_zero⟩, ⟨trivial, trivial⟩, trivial⟩

theorem mySetProcessPriority_end_to_end_migrated :
    ((mySetProcessPriority (normalTask .linux 0 .user) 0).2 = 0 ∧
      step .linux .nextAfterPick evenMachine (.mySetProcessPriority 0 0) = evenMachine) ∧
    ∃ t', migratedCall.returned.task 0 = some t' ∧ t'.myFixedPriority = 110 ∧
      t'.staticPrio = 110 ∧ taskNice t' = -10 := by
  have hrange : StaticPrioInRange (normalTask .linux 0 .user) := ⟨by decide, by decide⟩
  refine ⟨(mySetProcessPriority_end_to_end .linux evenMachine 0 0 _ evenMachine_fresh.lifecycle
    rfl hrange).1 (by decide), ?_⟩
  obtain ⟨t', ht', hfixed, hstatic⟩ := ((mySetProcessPriority_end_to_end .linux evenMachine 0 110
    _ evenMachine_fresh.lifecycle rfl hrange).2 ⟨by decide, by decide⟩).2 migratedCall
  have hnice : migratedCall.NotRenicedAfter :=
    ⟨by simp [NotReniced, Label.attrCall], by simp [NotReniced, Label.attrCall], trivial⟩
  exact ⟨t', ht', hfixed, hstatic hnice⟩

end NcuKernel.Sched
