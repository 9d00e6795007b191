import NcuKernel.Sched.EndToEnd

/-!
# Containment by `sched_reset_on_fork`

A parent that asked for it gets children at nice 0 or weaker, whatever its own fields
say. `copy_process` copies the fixed priority all the same and clears it last; the child
is not selected before, so no `__schedule` step ever undoes the reset.
-/

namespace NcuKernel.Sched

open Runs

variable (K : Kernel)

/-- With the flag set even a deadline task can fork. -/
theorem copyProcess_succeeds_of_reset {current : TaskStruct}
    (hreset : current.schedResetOnFork = true) : ∃ child, copyProcess K current = .ok child := by
  let copy := uclampFork K { __schedFork K (rtMutexInitTask (dupTaskStruct current)) with
    prio := current.normalPrio }
  have hcopy : copyProcess K current =
      setForkClass (if copy.schedResetOnFork then revertOnFork K copy else copy) := rfl
  have hflag : copy.schedResetOnFork = true := by
    obtain ⟨lo, hi, hfork⟩ := uclampFork_frame K
      { __schedFork K (rtMutexInitTask (dupTaskStruct current)) with prio := current.normalPrio }
    have hsame := congrArg TaskStruct.schedResetOnFork hfork
    exact hsame.trans hreset
  have hprio : (revertOnFork K copy).prio = (revertPolicy copy).staticPrio := by
    rw [revertOnFork_eq]
  have hdl : dlPrio (revertOnFork K copy).prio = false := by
    rw [hprio]
    rcases revertPolicy_cases copy with ⟨_, _, hstatic⟩ | ⟨_, _, hstatic⟩
    · simp [dlPrio, maxDlPrio, hstatic]
    · simp only [dlPrio, maxDlPrio, hstatic, decide_eq_false_iff_not]
      omega
  rw [hcopy, if_pos hflag, setForkClass, if_neg (by simp [hdl])]
  exact ⟨_, rfl⟩

/-- The fields that decide how a task competes, the boost apart, are those of `t₀`. -/
structure KeepsPriorities (t₀ t : TaskStruct) : Prop where
  policy : t.policy = t₀.policy
  static : t.staticPrio = t₀.staticPrio
  normal : t.normalPrio = t₀.normalPrio
  load : t.seLoad = t₀.seLoad
  reset : t.schedResetOnFork = t₀.schedResetOnFork

/-- The child competes as it was made, and `copy_process` leaves it without a fixed
priority. -/
def StaysAsMade (child : Pid) (t₀ : TaskStruct) (s : State) : Prop :=
  ∃ t, s.task child = some t ∧ KeepsPriorities t₀ t ∧
    (s.clone child ≠ .copying → t.myFixedPriority = 0)

theorem KeepsPriorities.copyProcessTail {t₀ t : TaskStruct} (h : KeepsPriorities t₀ t)
    (patch : Patch) : KeepsPriorities t₀ (copyProcessTail K patch t) := by
  obtain ⟨lo, heq⟩ := copyProcessTail_frame K patch t
  rw [heq]
  exact ⟨h.policy, h.static, h.normal, h.load, h.reset⟩

theorem StaysAsMade.step {child : Pid} {t₀ : TaskStruct} {s : State} {l : Label}
    (h : StaysAsMade child t₀ s) (hlife : Lifecycle s) (hcall : NoCallBy child s l)
    (hnice : NotReniced child s l) : StaysAsMade child t₀ (step K .nextAfterPick s l) := by
  obtain ⟨t, ht, hkeeps, hzero⟩ := h
  obtain ⟨t', ht', hstep⟩ := step_task_of_some K .nextAfterPick ht l
  refine ⟨t', ht', ?_, fun hclone ↦ ?_⟩
  · rcases hstep with rfl | ⟨hen, hc⟩
    · exact hkeeps
    · rcases hc.of_notReniced K hcall hnice with
        ⟨cpu, _, _, next, rfl, htarget, rfl⟩ | ⟨_, rfl⟩ | ⟨_, prio, schedClass, top, _, rfl⟩
      · -- what is selected has been woken, so the assignment finds nothing to assign
        obtain rfl : next = child := Option.some.inj htarget
        rwa [applyFixedPriority_of_eq_zero (hzero (by simp [hlife.clone_next hen]))]
      · exact hkeeps.copyProcessTail K _
      · exact ⟨hkeeps.policy, hkeeps.static, hkeeps.normal, hkeeps.load, hkeeps.reset⟩
  · rcases step_myFixedPriority_cases K ht' hclone with
      ⟨u, hu, hbefore, heq⟩ | ⟨cpu, _, rfl, hcur, _⟩ | ⟨_, hcleared⟩
    · obtain rfl : u = t := Option.some.inj (hu.symm.trans ht)
      rw [heq, hzero hbefore]
    · exact absurd hcur.symm hcall
    · exact hcleared

/-- The step is no boost of the task and ends none. -/
def NotBoosted (p : Pid) : Label → Prop
  | .rtMutexSetprio q _ => q ≠ p
  | _ => True

theorem prio_step {patch : Patch} {p : Pid} {prio : ℤ} {s : State} {l : Label}
    (h : ∃ t, s.task p = some t ∧ t.prio = prio) (hcall : NoCallBy p s l)
    (hnice : NotReniced p s l) (hboost : NotBoosted p l) :
    ∃ t, (step K patch s l).task p = some t ∧ t.prio = prio := by
  obtain ⟨t, ht, hprio⟩ := h
  obtain ⟨t', ht', hstep⟩ := step_task_of_some K patch ht l
  refine ⟨t', ht', ?_⟩
  rcases hstep with rfl | ⟨_, hc⟩
  · exact hprio
  · rcases hc.of_notReniced K hcall hnice with
      ⟨_, _, _, _, _, _, rfl⟩ | ⟨_, rfl⟩ | ⟨_, _, _, _, rfl, _⟩
    · rw [applyFixedPriority_eq]
      exact hprio
    · obtain ⟨lo, heq⟩ := copyProcessTail_frame K patch t
      rw [heq]
      exact hprio
    · exact absurd rfl hboost

/-! ## The child of a parent with the flag -/

/-- What `sched_fork` makes of the copy of a parent with `sched_reset_on_fork`. -/
structure Contained (t : TaskStruct) : Prop where
  floor : 120 ≤ t.staticPrio
  prio : t.prio = t.staticPrio
  normal : t.normalPrio = t.staticPrio
  load : t.seLoad = loadFor K t.policy t.staticPrio
  reset : t.schedResetOnFork = false

theorem contained_of_reset {current child : TaskStruct}
    (hreset : current.schedResetOnFork = true) (hok : copyProcess K current = .ok child) :
    Contained K child := by
  obtain ⟨hbranch, hprio, hnormal, hload, _, _, hflag⟩ := copyProcess_of_reset K hreset hok
  refine ⟨?_, hprio, hnormal, hload, hflag⟩
  rcases hbranch with ⟨_, _, hstatic⟩ | ⟨_, _, hstatic⟩
  · omega
  · omega

/-- The child of a parent with `sched_reset_on_fork` starts at nice 0 or weaker with all its
fields in agreement, and stays so through every run in which it makes no call that changes
priorities and nobody makes one on it. -/
theorem reset_on_fork_contains (s : State) (cpu : Cpu) (child : Pid) (current : TaskStruct)
    (hlife : Lifecycle s) (hcur : s.task (s.curr cpu) = some current)
    (hreset : current.schedResetOnFork = true) (hfresh : s.task child = none) :
    ∃ t₀, (step K .nextAfterPick s (.copyProcess cpu child)).task child = some t₀ ∧
      Contained K t₀ ∧ ∀ ls,
        Along (step K .nextAfterPick) (fun s l ↦ NoCallBy child s l ∧ NotReniced child s l)
          (step K .nextAfterPick s (.copyProcess cpu child)) ls →
        AllStates (step K .nextAfterPick) (StaysAsMade child t₀)
          (step K .nextAfterPick s (.copyProcess cpu child)) ls ∧
        ((∀ l ∈ ls, NotBoosted child l) →
          AllStates (step K .nextAfterPick)
            (fun s' ↦ ∃ t, s'.task child = some t ∧ t.prio = t₀.staticPrio)
            (step K .nextAfterPick s (.copyProcess cpu child)) ls) := by
  obtain ⟨t₀, hok⟩ := copyProcess_succeeds_of_reset K hreset
  obtain ⟨hchild, hcopying⟩ := step_copyProcess K .nextAfterPick hcur hfresh hok
  have hcontained := contained_of_reset K hreset hok
  refine ⟨t₀, hchild, hcontained, fun ls hcalls ↦ ⟨?_, fun hboost ↦ ?_⟩⟩
  · have hstep : ∀ s l, Lifecycle s ∧ StaysAsMade child t₀ s →
        NoCallBy child s l ∧ NotReniced child s l →
        Lifecycle (step K .nextAfterPick s l) ∧
          StaysAsMade child t₀ (step K .nextAfterPick s l) :=
      fun s l hs hl ↦ ⟨hs.1.step K _ l, hs.2.step K hs.1 hl.1 hl.2⟩
    have hmade : StaysAsMade child t₀ (step K .nextAfterPick s (.copyProcess cpu child)) :=
      ⟨t₀, hchild, ⟨rfl, rfl, rfl, rfl, rfl⟩, fun hnot ↦ absurd hcopying hnot⟩
    have hall := allStates_of_along hstep ⟨hlife.step K _ _, hmade⟩ hcalls
    exact allStates_iff_take.mpr fun k ↦ (allStates_iff_take.mp hall k).2
  · have hstep : ∀ s l, (∃ t, s.task child = some t ∧ t.prio = t₀.staticPrio) →
        (NoCallBy child s l ∧ NotReniced child s l) ∧ NotBoosted child l →
        ∃ t, (step K .nextAfterPick s l).task child = some t ∧ t.prio = t₀.staticPrio :=
      fun s l hs hl ↦ prio_step K hs hl.1.1 hl.1.2 hl.2
    exact allStates_of_along hstep ⟨t₀, hchild, hcontained.prio⟩
      (hcalls.and (along_of_forall hboost))

/-- A task that sets the flag, fixes the priority 101 and has been switched to. -/
def flaggedMachine : State :=
  run (step .linux .nextAfterPick) evenMachine
    [.sysSchedSetscheduler 0 0 0x40000000 0 ⟨0, false, false, false⟩,
      .mySetProcessPriority 0 101, .schedule 0 false false 0]

theorem reset_on_fork_contains_flagged :
    ∃ t₀, (step .linux .nextAfterPick flaggedMachine (.copyProcess 0 1)).task 1 = some t₀ ∧
      Contained .linux t₀ ∧
      AllStates (step .linux .nextAfterPick) (StaysAsMade 1 t₀)
        (step .linux .nextAfterPick flaggedMachine (.copyProcess 0 1))
        [.copyProcessTail 1, .wakeUpNewTask 1, .schedule 0 false false 1,
          .schedule 0 true false 1, .setUserNice 0 19] := by
  obtain ⟨current, hcur, hflag⟩ : ∃ current,
      flaggedMachine.task (flaggedMachine.curr 0) = some current ∧
        current.schedResetOnFork = true := ⟨_, rfl, rfl⟩
  obtain ⟨t₀, hchild, hcontained, hruns⟩ := reset_on_fork_contains .linux flaggedMachine 0 1
    current (evenMachine_fresh.lifecycle.run .linux .nextAfterPick _) hcur hflag rfl
  exact ⟨t₀, hchild, hcontained,
    (hruns _ (by simp [NoCallBy, NotReniced, Label.attrCall])).1⟩

end NcuKernel.Sched
