import Mathlib.Order.Monotone.Basic
import Mathlib.Tactic.Common
import Mathlib.Data.Int.Order.Basic

/-!
# Scheduling fields of a task

The part of `task_struct` that the priority code of `core.c` reads and writes,
the two load weight tables, and the code of other kernel files that `core.c`
calls. That other code is a parameter of everything below, together with what
`core.c` relies on.
-/

set_option linter.style.nameCheck false

namespace NcuKernel.Sched

/-! ## The priority scale -/

def maxDlPrio : ℤ := 0

def maxRtPrio : ℤ := 100

def minNice : ℤ := -20

def maxNice : ℤ := 19

def niceWidth : ℤ := 40

def niceToPrio (nice : ℤ) : ℤ := nice + 120

def prioToNice (prio : ℤ) : ℤ := prio - 120

/-- Nice values 19 .. -20 as resource limits 1 .. 40. -/
def niceToRlimit (nice : ℤ) : ℤ := maxNice - nice + 1

def dlPrio (prio : ℤ) : Bool := prio < maxDlPrio

def rtPrio (prio : ℤ) : Bool := prio < maxRtPrio

def clamp (x lo hi : ℤ) : ℤ := min (max x lo) hi

@[simp] theorem niceToPrio_prioToNice (prio : ℤ) : niceToPrio (prioToNice prio) = prio := by
  simp [niceToPrio, prioToNice]

@[simp] theorem prioToNice_niceToPrio (nice : ℤ) : prioToNice (niceToPrio nice) = nice := by
  simp [niceToPrio, prioToNice]

/-! ## Policies and classes -/

inductive Policy where
  | normal
  | fifo
  | rr
  | batch
  | idle
  | deadline
  deriving DecidableEq, Repr

inductive SchedClass where
  | stop
  | dl
  | rt
  | fair
  | idle
  deriving DecidableEq, Repr

def idlePolicy (policy : Policy) : Bool := policy = .idle

def rtPolicy (policy : Policy) : Bool := policy = .fifo || policy = .rr

def dlPolicy (policy : Policy) : Bool := policy = .deadline

/-- The number user space and `sched_attr` use for a policy. `valid_policy`
accepts exactly the numbers that decode. -/
def Policy.ofWord (policy : BitVec 32) : Option Policy :=
  match policy.toNat with
  | 0 => some .normal
  | 1 => some .fifo
  | 2 => some .rr
  | 3 => some .batch
  | 5 => some .idle
  | 6 => some .deadline
  | _ => none

def Policy.InFairClass (policy : Policy) : Prop :=
  policy = .normal ∨ policy = .batch ∨ policy = .idle

instance (policy : Policy) : Decidable policy.InFairClass :=
  inferInstanceAs (Decidable (_ ∨ _))

theorem Policy.inFairClass_iff (policy : Policy) :
    policy.InFairClass ↔ dlPolicy policy = false ∧ rtPolicy policy = false := by
  cases policy <;> simp [InFairClass, dlPolicy, rtPolicy]

/-! ## The task record -/

structure LoadWeight where
  weight : ℕ
  invWeight : ℕ
  deriving DecidableEq, Repr

/-- `struct uclamp_se`, without the bucket and the activity bit. -/
structure UclampSe where
  value : ℕ
  userDefined : Bool
  deriving DecidableEq, Repr

/-- The parameters of `struct sched_dl_entity` that `sched_setattr` stores. -/
structure SchedDlEntity where
  dlRuntime : ℕ
  dlDeadline : ℕ
  dlPeriod : ℕ
  flags : BitVec 64
  deriving DecidableEq, Repr

/-- What the permission checks read of the credentials and resource limits. -/
structure Cred where
  uid : ℕ
  euid : ℕ
  capSysNice : Bool
  rlimitNice : ℕ
  rlimitRtprio : ℕ
  deriving DecidableEq, Repr

abbrev Pid := ℕ

/-- The scheduling fields of `struct task_struct`. -/
structure TaskStruct where
  prio : ℤ
  staticPrio : ℤ
  normalPrio : ℤ
  rtPriority : ℕ
  seLoad : LoadWeight
  dl : SchedDlEntity
  schedClass : SchedClass
  uclampMin : UclampSe
  uclampMax : UclampSe
  policy : Policy
  schedResetOnFork : Bool
  piTopTask : Option Pid
  cred : Cred
  myFixedPriority : ℤ
  deriving DecidableEq, Repr

structure SchedAttr where
  schedPolicy : BitVec 32
  schedFlags : BitVec 64
  schedNice : ℤ
  schedPriority : ℕ
  schedRuntime : ℕ
  schedDeadline : ℕ
  schedPeriod : ℕ
  schedUtilMin : BitVec 32
  schedUtilMax : BitVec 32
  deriving DecidableEq, Repr

def taskHasIdlePolicy (p : TaskStruct) : Bool := idlePolicy p.policy

def taskHasRtPolicy (p : TaskStruct) : Bool := rtPolicy p.policy

def taskHasDlPolicy (p : TaskStruct) : Bool := dlPolicy p.policy

/-- `dl_task` and `rt_task` look at the effective priority, not at the policy. -/
def dlTask (p : TaskStruct) : Bool := dlPrio p.prio

def rtTask (p : TaskStruct) : Bool := rtPrio p.prio

def taskNice (p : TaskStruct) : ℤ := prioToNice p.staticPrio

/-! ## Load weights -/

def schedPrioToWeightTable : List ℕ :=
  [88761, 71755, 56483, 46273, 36291,
   29154, 23254, 18705, 14949, 11916,
   9548, 7620, 6100, 4904, 3906,
   3121, 2501, 1991, 1586, 1277,
   1024, 820, 655, 526, 423,
   335, 272, 215, 172, 137,
   110, 87, 70, 56, 45,
   36, 29, 23, 18, 15]

def schedPrioToWmultTable : List ℕ :=
  [48388, 59856, 76040, 92818, 118348,
   147320, 184698, 229616, 287308, 360437,
   449829, 563644, 704093, 875809, 1099582,
   1376151, 1717300, 2157191, 2708050, 3363326,
   4194304, 5237765, 6557202, 8165337, 10153587,
   12820798, 15790321, 19976592, 24970740, 31350126,
   39045157, 49367440, 61356676, 76695844, 95443717,
   119304647, 148102320, 186737708, 238609294, 286331153]

/-- Array access with a C `int` index. An access outside the array has no
defined value in C; the model reads zero there. -/
def tableAt (table : List ℕ) (i : ℤ) : ℕ := if 0 ≤ i then table.getD i.toNat 0 else 0

def schedPrioToWeight (prio : ℤ) : ℕ := tableAt schedPrioToWeightTable prio

def schedPrioToWmult (prio : ℤ) : ℕ := tableAt schedPrioToWmultTable prio

def weightIdleprio : ℕ := 3

def wmultIdleprio : ℕ := 1431655765

/-- A larger index into the weight table never gives a larger weight, and the
weight of `SCHED_IDLE` lies below the whole table. -/
theorem schedPrioToWeight_antitone {i j : ℤ} (hi : 0 ≤ i) (hij : i ≤ j) (hj : j < 40) :
    schedPrioToWeight j ≤ schedPrioToWeight i := by
  have htable : ∀ a b : Fin 40, a ≤ b →
      schedPrioToWeightTable.getD b 0 ≤ schedPrioToWeightTable.getD a 0 := by decide
  have h := htable ⟨i.toNat, by omega⟩ ⟨j.toNat, by omega⟩
    (by simp only [Fin.mk_le_mk]; omega)
  simpa [schedPrioToWeight, tableAt, hi, hi.trans hij] using h

theorem weightIdleprio_le_schedPrioToWeight {i : ℤ} (hi : 0 ≤ i) (hlt : i < 40) :
    weightIdleprio ≤ schedPrioToWeight i := by
  have hlast := schedPrioToWeight_antitone hi (show i ≤ 39 by omega) (by omega)
  exact (by decide : weightIdleprio ≤ schedPrioToWeight 39).trans hlast

/-! ## The rest of the kernel -/

/-- The code outside the repository that `core.c` calls, with what is known of
it. `scale_load`, `fair_policy` (`kernel/sched/sched.h`), `reweight_task`
(`fair.c`) and the parameter handling of `deadline.c` are functions. Whether
`fair_policy` counts `SCHED_IDLE` as fair is left open. The configuration and
the per-CPU idle and stop threads do not change during a run. -/
structure Kernel where
  scaleLoad : ℕ → ℕ
  scaleLoad_mono : Monotone scaleLoad
  fairPolicyIdle : Bool
  reweightTask : TaskStruct → ℤ → TaskStruct
  reweightTask_eq : ∀ p prio, reweightTask p prio =
    { p with seLoad := ⟨scaleLoad (schedPrioToWeight prio), schedPrioToWmult prio⟩ }
  checkparamDl : SchedAttr → Bool
  setparamDl : SchedDlEntity → SchedAttr → SchedDlEntity
  dlParamChanged : SchedDlEntity → SchedAttr → Bool
  dlClearParams : SchedDlEntity → SchedDlEntity
  getparamDl : TaskStruct → SchedAttr → SchedAttr
  getparamDl_nice : ∀ p attr, (getparamDl p attr).schedNice = attr.schedNice
  getparamDl_congr : ∀ p q attr, p.rtPriority = q.rtPriority → p.dl = q.dl →
    getparamDl p attr = getparamDl q attr
  configUclampTask : Bool
  sysctlSchedUclampUtilMinRtDefault : ℕ
  isIdleThread : Pid → Bool
  isStopThread : Pid → Bool

def schedDlFlags : BitVec 64 := 0x10000006

/-- A 64-bit SMP kernel in the version the readme names, with clamps configured
and without idle or stop threads among the tasks considered. -/
def Kernel.linux : Kernel where
  scaleLoad w := w * 1024
  scaleLoad_mono _ _ h := Nat.mul_le_mul_right 1024 h
  fairPolicyIdle := false
  reweightTask p prio :=
    { p with seLoad := ⟨schedPrioToWeight prio * 1024, schedPrioToWmult prio⟩ }
  reweightTask_eq _ _ := rfl
  checkparamDl attr :=
    let period := if attr.schedPeriod = 0 then attr.schedDeadline else attr.schedPeriod
    attr.schedFlags &&& 0x10000000 ≠ 0 ||
      (attr.schedDeadline ≠ 0 && 1024 ≤ attr.schedRuntime &&
        attr.schedDeadline < 0x8000000000000000 && attr.schedPeriod < 0x8000000000000000 &&
        attr.schedDeadline ≤ period && attr.schedRuntime ≤ attr.schedDeadline &&
        100000 ≤ period && period ≤ 4194304000)
  setparamDl _ attr :=
    { dlRuntime := attr.schedRuntime
      dlDeadline := attr.schedDeadline
      dlPeriod := if attr.schedPeriod = 0 then attr.schedDeadline else attr.schedPeriod
      flags := attr.schedFlags &&& schedDlFlags }
  dlParamChanged dl attr :=
    dl.dlRuntime ≠ attr.schedRuntime || dl.dlDeadline ≠ attr.schedDeadline ||
      dl.dlPeriod ≠ attr.schedPeriod || dl.flags ≠ attr.schedFlags &&& schedDlFlags
  dlClearParams _ := ⟨0, 0, 0, 0⟩
  getparamDl p attr :=
    { attr with
      schedPriority := p.rtPriority
      schedRuntime := p.dl.dlRuntime
      schedDeadline := p.dl.dlDeadline
      schedPeriod := p.dl.dlPeriod
      schedFlags := attr.schedFlags &&& ~~~schedDlFlags ||| p.dl.flags }
  getparamDl_nice _ _ := rfl
  getparamDl_congr p q attr hrt hdl := by simp [hrt, hdl]
  configUclampTask := true
  sysctlSchedUclampUtilMinRtDefault := 1024
  isIdleThread _ := false
  isStopThread _ := false

variable (K : Kernel)

def fairPolicy : Policy → Bool
  | .normal => true
  | .batch => true
  | .idle => K.fairPolicyIdle
  | _ => false

def loadFor (policy : Policy) (staticPrio : ℤ) : LoadWeight :=
  if idlePolicy policy then ⟨K.scaleLoad weightIdleprio, wmultIdleprio⟩
  else ⟨K.scaleLoad (schedPrioToWeight (staticPrio - maxRtPrio)),
    schedPrioToWmult (staticPrio - maxRtPrio)⟩

def setLoadWeight (p : TaskStruct) (updateLoad : Bool) : TaskStruct :=
  let prio := p.staticPrio - maxRtPrio
  -- SCHED_IDLE tasks get minimal weight
  if taskHasIdlePolicy p then
    { p with seLoad := ⟨K.scaleLoad weightIdleprio, wmultIdleprio⟩ }
  -- SCHED_OTHER tasks have to update their load when changing their weight
  else if updateLoad && p.schedClass = .fair then
    K.reweightTask p prio
  else
    { p with seLoad := ⟨K.scaleLoad (schedPrioToWeight prio), schedPrioToWmult prio⟩ }

@[simp] theorem setLoadWeight_eq (p : TaskStruct) (updateLoad : Bool) :
    setLoadWeight K p updateLoad = { p with seLoad := loadFor K p.policy p.staticPrio } := by
  unfold setLoadWeight loadFor taskHasIdlePolicy
  by_cases hidle : idlePolicy p.policy = true
  · simp [hidle]
  · by_cases hfair : (updateLoad && decide (p.schedClass = .fair)) = true
    · simp [hidle, hfair, K.reweightTask_eq]
    · simp [hidle, hfair]

/-! ## Effective and normal priority -/

def __normalPrio (policy : Policy) (rtPrio : ℕ) (nice : ℤ) : ℤ :=
  if dlPolicy policy then maxDlPrio - 1
  else if rtPolicy policy then maxRtPrio - 1 - rtPrio
  else niceToPrio nice

def normalPrio (p : TaskStruct) : ℤ :=
  __normalPrio p.policy p.rtPriority (prioToNice p.staticPrio)

theorem normalPrio_of_inFairClass {p : TaskStruct} (h : p.policy.InFairClass) :
    normalPrio p = p.staticPrio := by
  obtain ⟨hdl, hrt⟩ := p.policy.inFairClass_iff.mp h
  simp [normalPrio, __normalPrio, hdl, hrt]

/-- `effective_prio` stores the normal priority and returns the priority to use,
which stays as it is while the task is boosted to a real-time priority. -/
def effectivePrio (p : TaskStruct) : TaskStruct × ℤ :=
  let p := { p with normalPrio := normalPrio p }
  if !rtPrio p.prio then (p, p.normalPrio) else (p, p.prio)

def __rtEffectivePrio (piTaskPrio : Option ℤ) (prio : ℤ) : ℤ :=
  match piTaskPrio with
  | some donor => min prio donor
  | none => prio

def __setschedulerPrio (p : TaskStruct) (prio : ℤ) : TaskStruct :=
  { p with
    schedClass := if dlPrio prio then .dl else if rtPrio prio then .rt else .fair
    prio := prio }

/-! ## Renicing -/

def setUserNice (p : TaskStruct) (nice : ℤ) : TaskStruct :=
  if taskNice p = nice ∨ nice < minNice ∨ maxNice < nice then p
  -- the nice value of a real-time or deadline task is only remembered
  else if taskHasDlPolicy p || taskHasRtPolicy p then
    { p with staticPrio := niceToPrio nice }
  else
    let p := { p with staticPrio := niceToPrio nice }
    let p := setLoadWeight K p true
    let (p, prio) := effectivePrio p
    { p with prio := prio }

theorem setUserNice_of_inFairClass {p : TaskStruct} {nice : ℤ}
    (hfair : p.policy.InFairClass) (hne : taskNice p ≠ nice)
    (hlo : minNice ≤ nice) (hhi : nice ≤ maxNice) :
    setUserNice K p nice =
      { p with
        staticPrio := niceToPrio nice
        seLoad := loadFor K p.policy (niceToPrio nice)
        normalPrio := niceToPrio nice
        prio := if rtPrio p.prio then p.prio else niceToPrio nice } := by
  obtain ⟨hdl, hrt⟩ := p.policy.inFairClass_iff.mp hfair
  have hearly : ¬(taskNice p = nice ∨ nice < minNice ∨ maxNice < nice) := by
    simp [hne, hlo, hhi]
  have hnormal : normalPrio { p with
      staticPrio := niceToPrio nice
      seLoad := loadFor K p.policy (niceToPrio nice) } = niceToPrio nice :=
    normalPrio_of_inFairClass (by simpa using hfair)
  unfold setUserNice effectivePrio
  rw [if_neg hearly, if_neg (by simp [taskHasDlPolicy, taskHasRtPolicy, hdl, hrt])]
  simp only [setLoadWeight_eq, hnormal]
  by_cases hboost : rtPrio p.prio = true
  · simp [hboost]
  · simp [hboost]

theorem setUserNice_cases (p : TaskStruct) (nice : ℤ) :
    (setUserNice K p nice = p ∧ (taskNice p = nice ∨ nice < minNice ∨ maxNice < nice)) ∨
    (setUserNice K p nice = { p with staticPrio := niceToPrio nice } ∧
      ¬ p.policy.InFairClass ∧ minNice ≤ nice ∧ nice ≤ maxNice) ∨
    (setUserNice K p nice = { p with
        staticPrio := niceToPrio nice
        seLoad := loadFor K p.policy (niceToPrio nice)
        normalPrio := niceToPrio nice
        prio := if rtPrio p.prio then p.prio else niceToPrio nice } ∧
      p.policy.InFairClass ∧ minNice ≤ nice ∧ nice ≤ maxNice) := by
  by_cases hearly : taskNice p = nice ∨ nice < minNice ∨ maxNice < nice
  · exact .inl ⟨by simp [setUserNice, hearly], hearly⟩
  · have hrange := hearly
    push Not at hrange
    obtain ⟨hne, hlo, hhi⟩ := hrange
    by_cases hfair : p.policy.InFairClass
    · exact .inr (.inr ⟨setUserNice_of_inFairClass K hfair hne hlo hhi, hfair, hlo, hhi⟩)
    · refine .inr (.inl ⟨?_, hfair, hlo, hhi⟩)
      have hother : (taskHasDlPolicy p || taskHasRtPolicy p) = true := by
        have h := fun hh ↦ hfair (p.policy.inFairClass_iff.mpr hh)
        rw [Bool.or_eq_true]
        by_contra hno
        push Not at hno
        exact h ⟨by simpa [taskHasDlPolicy] using hno.1, by simpa [taskHasRtPolicy] using hno.2⟩
      simp [setUserNice, hearly, hother]

theorem setUserNice_frame (p : TaskStruct) (nice : ℤ) :
    (setUserNice K p nice).cred = p.cred ∧
      (setUserNice K p nice).myFixedPriority = p.myFixedPriority := by
  rcases setUserNice_cases K p nice with ⟨heq, _⟩ | ⟨heq, _⟩ | ⟨heq, _⟩ <;>
    rw [heq] <;> exact ⟨rfl, rfl⟩

/-- The conversion of an `int` to `unsigned long`. -/
def ulongOfInt (n : ℤ) : ℤ := if n < 0 then n + 0x10000000000000000 else n

/-- `can_nice`: the limit, an `unsigned long`, is that of `p`, the capability that of the
caller. -/
def canNice (current p : TaskStruct) (nice : ℤ) : Bool :=
  ulongOfInt (niceToRlimit nice) ≤ p.cred.rlimitNice || current.cred.capSysNice

theorem niceToRlimit_le_of_canNice {current p : TaskStruct} {nice : ℤ}
    (hcap : current.cred.capSysNice = false) (h : canNice current p nice = true) :
    niceToRlimit nice ≤ p.cred.rlimitNice := by
  have hle : ulongOfInt (niceToRlimit nice) ≤ p.cred.rlimitNice := by
    simpa [canNice, hcap] using h
  unfold ulongOfInt at hle
  split at hle <;> omega

inductive Errno where
  | einval
  | eperm
  | ebusy
  | eopnotsupp
  | eagain
  | e2big
  /-- The error code a security module returned. -/
  | lsm (code : ℤ)
  deriving DecidableEq, Repr

/-- `sys_nice`; `security` is the answer of `security_task_setnice`. -/
def sysNice (current : TaskStruct) (increment security : ℤ) : Except Errno TaskStruct :=
  let increment := clamp increment (-niceWidth) niceWidth
  let nice := clamp (taskNice current + increment) minNice maxNice
  if increment < 0 && !canNice current current nice then .error .eperm
  else if security ≠ 0 then .error (.lsm security)
  else .ok (setUserNice K current nice)

/-- The inversion of a successful call: the value is in range, and below the present
one only if `can_nice` allows it. -/
theorem sysNice_ok {current t : TaskStruct} {increment security : ℤ}
    (h : sysNice K current increment security = .ok t) :
    ∃ nice, t = setUserNice K current nice ∧ minNice ≤ nice ∧ nice ≤ maxNice ∧
      (nice < taskNice current → taskNice current ≤ maxNice →
        canNice current current nice = true) := by
  let step := clamp increment (-niceWidth) niceWidth
  let nice := clamp (taskNice current + step) minNice maxNice
  have hrange : minNice ≤ nice ∧ nice ≤ maxNice := by
    simp only [nice, clamp, minNice, maxNice]
    omega
  have hdown : nice < taskNice current → taskNice current ≤ maxNice → step < 0 := by
    simp only [nice, clamp, minNice, maxNice]
    omega
  have hsys : (if step < 0 && !canNice current current nice then .error .eperm
      else if security ≠ 0 then .error (.lsm security)
      else .ok (setUserNice K current nice)) = (Except.ok t : Except Errno TaskStruct) := h
  refine ⟨nice, ?_, hrange.1, hrange.2, fun hlt hle ↦ ?_⟩
  · split at hsys
    · simp at hsys
    · split at hsys
      · simp at hsys
      · exact (Except.ok.inj hsys).symm
  · by_contra hno
    have hrefused : (step < 0 && !canNice current current nice) = true := by
      simpa [hdown hlt hle] using hno
    rw [if_pos hrefused] at hsys
    simp at hsys

theorem sysNice_frame (t : TaskStruct) (increment security : ℤ) :
    ((sysNice K t increment security).toOption.getD t).cred = t.cred ∧
      ((sysNice K t increment security).toOption.getD t).myFixedPriority =
        t.myFixedPriority := by
  cases h : sysNice K t increment security with
  | error e => exact ⟨rfl, rfl⟩
  | ok t' =>
      obtain ⟨nice, rfl, _⟩ := sysNice_ok K h
      exact setUserNice_frame K t nice

end NcuKernel.Sched
