import NcuKernel.Sched.Setscheduler

/-!
# The patch, forking and priority inheritance

`my_set_process_priority` and the guarded assignment are the repository's own
code. `copy_process` is split where the child becomes visible: from there on
other tasks may renice the child, and only the tail of the function resets the
copied `my_fixed_priority`.
-/

set_option linter.style.nameCheck false

namespace NcuKernel.Sched

/-! ## The patch -/

/-- Where `__schedule` assigns the fixed priority: nowhere (the kernel without
the patch), to `prev` on entry (the readme's first idea, left as a comment in
`core.c`), or to `next` after `pick_next_task` (the code as it stands). -/
inductive Patch where
  | none
  | prevOnEntry
  | nextAfterPick
  deriving DecidableEq, Repr

def applyFixedPriority (p : TaskStruct) : TaskStruct :=
  if p.staticPrio ≠ 0 ∧ 101 ≤ p.myFixedPriority ∧ p.myFixedPriority ≤ 139 then
    { p with staticPrio := p.myFixedPriority }
  else p

/-- The system call up to its call of `schedule`, and the value it returns in
the end. There is no record to store when the argument is out of range. -/
def mySetProcessPriority (task : TaskStruct) (priority : ℤ) : Option TaskStruct × ℤ :=
  if priority < 101 ∨ 139 < priority then (none, 0)
  else (some { task with myFixedPriority := priority }, 1)

theorem mySetProcessPriority_of_mem (task : TaskStruct) {priority : ℤ} (hlo : 101 ≤ priority)
    (hhi : priority ≤ 139) :
    mySetProcessPriority task priority = (some { task with myFixedPriority := priority }, 1) :=
  if_neg (by omega)

theorem mySetProcessPriority_of_not_mem (task : TaskStruct) {priority : ℤ}
    (hout : priority < 101 ∨ 139 < priority) : mySetProcessPriority task priority = (none, 0) :=
  if_pos hout

theorem mySetProcessPriority_some {task t : TaskStruct} {priority : ℤ}
    (h : (mySetProcessPriority task priority).1 = some t) :
    101 ≤ priority ∧ priority ≤ 139 ∧ t = { task with myFixedPriority := priority } := by
  unfold mySetProcessPriority at h
  split at h
  · simp at h
  · rename_i hrange
    push Not at hrange
    exact ⟨hrange.1, hrange.2, by simpa [eq_comm] using h⟩

theorem applyFixedPriority_of_mem {p : TaskStruct} (h0 : p.staticPrio ≠ 0)
    (hlo : 101 ≤ p.myFixedPriority) (hhi : p.myFixedPriority ≤ 139) :
    applyFixedPriority p = { p with staticPrio := p.myFixedPriority } := by
  simp [applyFixedPriority, h0, hlo, hhi]

theorem applyFixedPriority_of_eq_zero {p : TaskStruct} (h : p.myFixedPriority = 0) :
    applyFixedPriority p = p := by
  simp [applyFixedPriority, h]

theorem applyFixedPriority_eq (p : TaskStruct) :
    applyFixedPriority p = { p with staticPrio := (applyFixedPriority p).staticPrio } := by
  unfold applyFixedPriority
  split <;> rfl

theorem applyFixedPriority_staticPrio (p : TaskStruct) :
    (applyFixedPriority p).staticPrio = p.staticPrio ∨
      (101 ≤ p.myFixedPriority ∧ p.myFixedPriority ≤ 139 ∧
        (applyFixedPriority p).staticPrio = p.myFixedPriority) := by
  unfold applyFixedPriority
  split
  · rename_i h
    exact .inr ⟨h.2.1, h.2.2, rfl⟩
  · exact .inl rfl

/-! ## Forking -/

variable (K : Kernel)

def __schedFork (p : TaskStruct) : TaskStruct := { p with dl := K.dlClearParams p.dl }

/-- Policy and static priority a child falls back to: a real-time or deadline
policy becomes `SCHED_NORMAL`, a negative nice value becomes 0. -/
def revertPolicy (p : TaskStruct) : TaskStruct :=
  if taskHasDlPolicy p || taskHasRtPolicy p then
    { p with policy := .normal, staticPrio := niceToPrio 0, rtPriority := 0 }
  else if prioToNice p.staticPrio < 0 then { p with staticPrio := niceToPrio 0 }
  else p

/-- The block of `sched_fork` under `sched_reset_on_fork`. -/
def revertOnFork (p : TaskStruct) : TaskStruct :=
  let p := revertPolicy p
  let p := { p with prio := p.staticPrio, normalPrio := p.staticPrio }
  let p := setLoadWeight K p false
  { p with schedResetOnFork := false }

/-- The end of `sched_fork`: a deadline task cannot fork. -/
def setForkClass (p : TaskStruct) : Except Errno TaskStruct :=
  if dlPrio p.prio then .error .eagain
  else .ok { p with schedClass := if rtPrio p.prio then .rt else .fair }

def schedFork (current p : TaskStruct) : Except Errno TaskStruct :=
  let p := __schedFork K p
  -- do not leak a boosted priority to the child
  let p := { p with prio := current.normalPrio }
  let p := uclampFork K p
  setForkClass (if p.schedResetOnFork then revertOnFork K p else p)

def dupTaskStruct (orig : TaskStruct) : TaskStruct := orig

def rtMutexInitTask (p : TaskStruct) : TaskStruct := { p with piTopTask := none }

/-- `copy_process` up to the point where the child is visible to other tasks. -/
def copyProcess (current : TaskStruct) : Except Errno TaskStruct :=
  schedFork K current (rtMutexInitTask (dupTaskStruct current))

/-- The rest of `copy_process`: `sched_post_fork`, and with the patch the reset of
the copied field. -/
def copyProcessTail (patch : Patch) (p : TaskStruct) : TaskStruct :=
  let p := uclampPostFork K p
  if patch = .none then p else { p with myFixedPriority := 0 }

theorem setForkClass_ok {p child : TaskStruct} (h : setForkClass p = .ok child) :
    child = { p with schedClass := if rtPrio p.prio then .rt else .fair } := by
  unfold setForkClass at h
  split at h
  · simp at h
  · exact (Except.ok.inj h).symm

theorem revertOnFork_eq (p : TaskStruct) :
    revertOnFork K p = { revertPolicy p with
      prio := (revertPolicy p).staticPrio
      normalPrio := (revertPolicy p).staticPrio
      seLoad := loadFor K (revertPolicy p).policy (revertPolicy p).staticPrio
      schedResetOnFork := false } := by
  simp [revertOnFork]

theorem revertPolicy_cases (p : TaskStruct) :
    (¬ p.policy.InFairClass ∧ (revertPolicy p).policy = .normal ∧
      (revertPolicy p).staticPrio = 120) ∨
    (p.policy.InFairClass ∧ (revertPolicy p).policy = p.policy ∧
      (revertPolicy p).staticPrio = max p.staticPrio 120) := by
  by_cases hother : (taskHasDlPolicy p || taskHasRtPolicy p) = true
  · left
    refine ⟨?_, by simp [revertPolicy, hother], by simp [revertPolicy, hother, niceToPrio]⟩
    rw [Policy.inFairClass_iff]
    rintro ⟨hdl, hrt⟩
    simp [taskHasDlPolicy, taskHasRtPolicy, hdl, hrt] at hother
  · right
    refine ⟨?_, ?_⟩
    · rw [Policy.inFairClass_iff]
      simpa [taskHasDlPolicy, taskHasRtPolicy] using hother
    · unfold revertPolicy
      rw [if_neg hother]
      split
      · rename_i hneg
        simp only [prioToNice] at hneg
        exact ⟨rfl, by simp only [niceToPrio]; omega⟩
      · rename_i hneg
        simp only [prioToNice] at hneg
        exact ⟨rfl, by omega⟩

theorem revertPolicy_frame (p : TaskStruct) :
    (revertPolicy p).cred = p.cred ∧ (revertPolicy p).myFixedPriority = p.myFixedPriority ∧
      (revertPolicy p).piTopTask = p.piTopTask := by
  unfold revertPolicy
  split
  · exact ⟨rfl, rfl, rfl⟩
  · split <;> exact ⟨rfl, rfl, rfl⟩

/-- The copy of the parent that `sched_fork` starts from, with the boost removed. -/
def forkCopy (current : TaskStruct) (lo hi : UclampSe) : TaskStruct :=
  { current with
    piTopTask := none
    dl := K.dlClearParams current.dl
    prio := current.normalPrio
    uclampMin := lo
    uclampMax := hi }

/-- The inversion of a successful fork: the child is the parent's record without
the boost, reverted first when the parent asked for it. -/
theorem copyProcess_ok {current child : TaskStruct} (h : copyProcess K current = .ok child) :
    ∃ lo hi base, child = { base with schedClass := if rtPrio base.prio then .rt else .fair } ∧
      base = if current.schedResetOnFork then revertOnFork K (forkCopy K current lo hi)
        else forkCopy K current lo hi := by
  let unclamped := { current with
    piTopTask := none
    dl := K.dlClearParams current.dl
    prio := current.normalPrio }
  have hclass : setForkClass (if (uclampFork K unclamped).schedResetOnFork then
      revertOnFork K (uclampFork K unclamped) else uclampFork K unclamped) = .ok child := h
  obtain ⟨lo, hi, hfork⟩ := uclampFork_frame K unclamped
  rw [hfork] at hclass
  exact ⟨lo, hi, _, setForkClass_ok hclass, rfl⟩

/-- The child of a parent without `sched_reset_on_fork` keeps every scheduling
field but the boost. -/
theorem copyProcess_of_not_reset {current child : TaskStruct}
    (hreset : current.schedResetOnFork = false) (h : copyProcess K current = .ok child) :
    child.policy = current.policy ∧ child.staticPrio = current.staticPrio ∧
      child.normalPrio = current.normalPrio ∧ child.seLoad = current.seLoad ∧
      child.cred = current.cred ∧ child.myFixedPriority = current.myFixedPriority ∧
      child.schedResetOnFork = false := by
  obtain ⟨lo, hi, base, rfl, hbase⟩ := copyProcess_ok K h
  rw [if_neg (by simp [hreset])] at hbase
  subst hbase
  exact ⟨rfl, rfl, rfl, rfl, rfl, rfl, hreset⟩

/-- The child of a parent with `sched_reset_on_fork`, whatever the state of the
parent's own fields. -/
theorem copyProcess_of_reset {current child : TaskStruct}
    (hreset : current.schedResetOnFork = true) (h : copyProcess K current = .ok child) :
    (¬ current.policy.InFairClass ∧ child.policy = .normal ∧ child.staticPrio = 120 ∨
        current.policy.InFairClass ∧ child.policy = current.policy ∧
          child.staticPrio = max current.staticPrio 120) ∧
      child.prio = child.staticPrio ∧ child.normalPrio = child.staticPrio ∧
      child.seLoad = loadFor K child.policy child.staticPrio ∧
      child.cred = current.cred ∧ child.myFixedPriority = current.myFixedPriority ∧
      child.schedResetOnFork = false := by
  obtain ⟨lo, hi, base, rfl, hbase⟩ := copyProcess_ok K h
  rw [if_pos hreset, revertOnFork_eq] at hbase
  obtain ⟨hcred, hfixed, _⟩ := revertPolicy_frame (forkCopy K current lo hi)
  subst hbase
  exact ⟨revertPolicy_cases (forkCopy K current lo hi), rfl, rfl, rfl, hcred, hfixed, rfl⟩

theorem copyProcess_frame {current child : TaskStruct} (h : copyProcess K current = .ok child) :
    child.cred = current.cred ∧ child.myFixedPriority = current.myFixedPriority := by
  cases hreset : current.schedResetOnFork with
  | false =>
      obtain ⟨_, _, _, _, hcred, hfixed, _⟩ := copyProcess_of_not_reset K hreset h
      exact ⟨hcred, hfixed⟩
  | true =>
      obtain ⟨_, _, _, _, hcred, hfixed, _⟩ := copyProcess_of_reset K hreset h
      exact ⟨hcred, hfixed⟩

theorem copyProcessTail_frame (patch : Patch) (p : TaskStruct) :
    ∃ lo, copyProcessTail K patch p = { p with
      uclampMin := lo
      myFixedPriority := if patch = .none then p.myFixedPriority else 0 } := by
  obtain ⟨lo, hpost⟩ := uclampPostFork_frame K p
  refine ⟨lo, ?_⟩
  unfold copyProcessTail
  rw [hpost]
  split <;> rfl

theorem copyProcessTail_myFixedPriority (p : TaskStruct) :
    (copyProcessTail K .nextAfterPick p).myFixedPriority = 0 := by
  obtain ⟨lo, heq⟩ := copyProcessTail_frame K .nextAfterPick p
  rw [heq]
  rfl

/-! ## Priority inheritance -/

/-- `rt_mutex_setprio`: `piTask` is the donor, or none when the boost ends. -/
def rtMutexSetprio (isIdle : Bool) (p : TaskStruct) (piTask : Option Pid)
    (piTaskPrio : Option ℤ) : TaskStruct :=
  let prio := __rtEffectivePrio piTaskPrio p.normalPrio
  if p.piTopTask = piTask ∧ prio = p.prio ∧ !dlPrio prio then p
  else
    let p := { p with piTopTask := piTask }
    -- for FIFO and RR only the priority has to be set
    if prio = p.prio ∧ !dlPrio prio then p
    -- boosting the idle thread is ignored
    else if isIdle then p
    else __setschedulerPrio p prio

theorem rtMutexSetprio_frame (isIdle : Bool) (p : TaskStruct) (piTask : Option Pid)
    (piTaskPrio : Option ℤ) :
    ∃ prio schedClass top, rtMutexSetprio isIdle p piTask piTaskPrio =
      { p with prio := prio, schedClass := schedClass, piTopTask := top } := by
  dsimp only [rtMutexSetprio]
  by_cases hnothing : p.piTopTask = piTask ∧ __rtEffectivePrio piTaskPrio p.normalPrio = p.prio ∧
      (!dlPrio (__rtEffectivePrio piTaskPrio p.normalPrio)) = true
  · rw [if_pos hnothing]
    exact ⟨p.prio, p.schedClass, p.piTopTask, rfl⟩
  · rw [if_neg hnothing]
    by_cases hsame : __rtEffectivePrio piTaskPrio p.normalPrio = p.prio ∧
        (!dlPrio (__rtEffectivePrio piTaskPrio p.normalPrio)) = true
    · rw [if_pos hsame]
      exact ⟨p.prio, p.schedClass, piTask, rfl⟩
    · rw [if_neg hsame]
      cases isIdle with
      | true => exact ⟨p.prio, p.schedClass, piTask, rfl⟩
      | false => exact ⟨_, _, piTask, rfl⟩

end NcuKernel.Sched
