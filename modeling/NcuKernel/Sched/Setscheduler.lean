import NcuKernel.Sched.Uclamp

/-!
# `__sched_setscheduler` and its entry points

Every refusal of `__sched_setscheduler` happens before the first write, so the
function is a list of checks, a shortcut for requests that change nothing, a
second list of checks, and the change itself. The pointer `p` is read and written under the
run queue lock, hence the test that repeats the policy check with the lock held
never fires here.
-/

set_option linter.style.nameCheck false

namespace NcuKernel.Sched

/-! ## Checks -/

/-- The first check that fires decides the error code. -/
def firstError : List (Bool × Errno) → Option Errno
  | [] => none
  | (refused, e) :: rest => if refused then some e else firstError rest

theorem firstError_eq_none_iff (checks : List (Bool × Errno)) :
    firstError checks = none ↔ ∀ c ∈ checks, c.1 = false := by
  induction checks with
  | nil => simp [firstError]
  | cons c rest ih =>
      obtain ⟨refused, e⟩ := c
      cases refused <;> simp [firstError, ih]

theorem firstError_congr {checks checks' : List (Bool × Errno)}
    (h : checks.map Prod.fst = checks'.map Prod.fst) :
    firstError checks = none ↔ firstError checks' = none := by
  have hall : ∀ cs : List (Bool × Errno),
      firstError cs = none ↔ ∀ b ∈ cs.map Prod.fst, b = false := by
    intro cs
    rw [firstError_eq_none_iff, List.forall_mem_map]
  rw [hall, hall, h]

/-- What a call finds outside the task record: the answer of
`security_task_setscheduler`, whether the task's group or its root domain
refuses real-time or deadline tasks, and the answer of `sched_dl_overflow`. -/
structure SetschedEnv where
  security : ℤ
  rtGroupRefuses : Bool
  rootDomainRefuses : Bool
  schedDlOverflow : Bool
  deriving DecidableEq, Repr

def setparamPolicy : BitVec 32 := -1

/-- `policy` and `reset_on_fork` at the label `recheck`. -/
def requestedPolicy (p : TaskStruct) (attr : SchedAttr) : Option (Policy × Bool) :=
  if attr.schedPolicy.toInt < 0 then some (p.policy, p.schedResetOnFork)
  else (Policy.ofWord attr.schedPolicy).map fun policy ↦ (policy, attr.has schedFlagResetOnFork)

def checkSameOwner (current p : TaskStruct) : Bool :=
  current.cred.euid = p.cred.euid || current.cred.euid = p.cred.uid

variable (K : Kernel)

/-- The block that is entered under `user && !capable(CAP_SYS_NICE)`. -/
def permissionChecks (current p : TaskStruct) (policy : Policy) (resetOnFork : Bool)
    (attr : SchedAttr) : List (Bool × Errno) :=
  [(fairPolicy K policy && attr.schedNice < taskNice p && !canNice current p attr.schedNice,
      .eperm),
    -- can't set or change the real-time policy
    (rtPolicy policy && policy ≠ p.policy && p.cred.rlimitRtprio = 0, .eperm),
    -- can't increase the real-time priority
    (rtPolicy policy && p.rtPriority < attr.schedPriority &&
      p.cred.rlimitRtprio < attr.schedPriority, .eperm),
    (dlPolicy policy, .eperm),
    -- SCHED_IDLE counts as nice 20
    (taskHasIdlePolicy p && !idlePolicy policy && !canNice current p (taskNice p), .eperm),
    (!checkSameOwner current p, .eperm),
    (p.schedResetOnFork && !resetOnFork, .eperm)]

/-- Everything that is checked before the run queue lock is taken, and the test
for the stop thread right after it. -/
def earlyChecks (env : SetschedEnv) (current p : TaskStruct) (isStop : Bool) (policy : Policy)
    (resetOnFork : Bool) (attr : SchedAttr) (user : Bool) : List (Bool × Errno) :=
  [(attr.has (~~~(schedFlagAll ||| schedFlagSugov)), .einval),
    (maxRtPrio - 1 < attr.schedPriority, .einval),
    ((dlPolicy policy && !K.checkparamDl attr) ||
      rtPolicy policy != decide (attr.schedPriority ≠ 0), .einval)] ++
  (if user && !current.cred.capSysNice then
    permissionChecks K current p policy resetOnFork attr else []) ++
  (if user then
    [(attr.has schedFlagSugov, .einval), (decide (env.security ≠ 0), .lsm env.security)]
    else []) ++
  [(attr.has schedFlagUtilClamp && (uclampValidate K p attr).isSome,
      (uclampValidate K p attr).getD .einval),
    (isStop, .einval)]

def changeRequested (p : TaskStruct) (policy : Policy) (attr : SchedAttr) : Bool :=
  (fairPolicy K policy && attr.schedNice ≠ taskNice p) ||
    (rtPolicy policy && attr.schedPriority ≠ p.rtPriority) ||
    (dlPolicy policy && K.dlParamChanged p.dl attr) ||
    attr.has schedFlagUtilClamp

def lateChecks (env : SetschedEnv) (p : TaskStruct) (policy : Policy) (attr : SchedAttr)
    (user : Bool) : List (Bool × Errno) :=
  (if user then
    [(rtPolicy policy && env.rtGroupRefuses, .eperm),
      (dlPolicy policy && !attr.has schedFlagSugov && env.rootDomainRefuses, .eperm)]
    else []) ++
  [((dlPolicy policy || dlTask p) && env.schedDlOverflow, .ebusy)]

/-! ## The change -/

/-- The policy `__setscheduler_params` stores. `SETPARAM_POLICY`, the one negative
value that gets here, stands for the policy the task has. -/
def attrPolicy (p : TaskStruct) (attr : SchedAttr) : Policy :=
  if attr.schedPolicy.toInt < 0 then p.policy
  else (Policy.ofWord attr.schedPolicy).getD p.policy

def __setschedulerParams (p : TaskStruct) (attr : SchedAttr) : TaskStruct :=
  let policy := attrPolicy p attr
  let p := { p with policy := policy }
  let p :=
    if dlPolicy policy then { p with dl := K.setparamDl p.dl attr }
    else if fairPolicy K policy then { p with staticPrio := niceToPrio attr.schedNice }
    else p
  let p := { p with rtPriority := attr.schedPriority }
  let p := { p with normalPrio := normalPrio p }
  setLoadWeight K p true

/-- The part of `__sched_setscheduler` that writes. `piTaskPrio` is the priority
of the top waiter on the task's mutexes. -/
def setschedulerChange (p : TaskStruct) (piTaskPrio : Option ℤ) (policy : Policy)
    (resetOnFork : Bool) (attr : SchedAttr) (pi : Bool) : TaskStruct :=
  let p := { p with schedResetOnFork := resetOnFork }
  let newprio := __normalPrio policy attr.schedPriority attr.schedNice
  let newprio := if pi then __rtEffectivePrio piTaskPrio newprio else newprio
  let p :=
    if attr.has schedFlagKeepParams then p
    else __setschedulerPrio (__setschedulerParams K p attr) newprio
  __setschedulerUclamp K p attr

def __schedSetscheduler (env : SetschedEnv) (current p : TaskStruct) (isStop : Bool)
    (piTaskPrio : Option ℤ) (attr : SchedAttr) (user pi : Bool) : Except Errno TaskStruct :=
  match requestedPolicy p attr with
  | none => .error .einval
  | some (policy, resetOnFork) =>
      match firstError (earlyChecks K env current p isStop policy resetOnFork attr user) with
      | some e => .error e
      | none =>
          -- not changing anything, but store a possible modification of reset_on_fork
          if policy = p.policy && !changeRequested K p policy attr then
            .ok { p with schedResetOnFork := resetOnFork }
          else
            match firstError (lateChecks env p policy attr user) with
            | some e => .error e
            | none => .ok (setschedulerChange K p piTaskPrio policy resetOnFork attr pi)

/-! ## Entry points -/

def schedResetOnForkBit : BitVec 32 := 0x40000000

/-- The attribute `_sched_setscheduler` builds: it asks for the nice value the
task has, and turns the `SCHED_RESET_ON_FORK` bit of the policy into a flag. -/
def schedParamAttr (p : TaskStruct) (policy : BitVec 32) (priority : ℕ) : SchedAttr :=
  let reset := policy ≠ setparamPolicy ∧ policy &&& schedResetOnForkBit ≠ 0
  { schedPolicy := if reset then policy &&& ~~~schedResetOnForkBit else policy
    schedFlags := if reset then schedFlagResetOnFork else 0
    schedNice := prioToNice p.staticPrio
    schedPriority := priority
    schedRuntime := 0
    schedDeadline := 0
    schedPeriod := 0
    schedUtilMin := 0
    schedUtilMax := 0 }

def _schedSetscheduler (env : SetschedEnv) (current p : TaskStruct) (isStop : Bool)
    (piTaskPrio : Option ℤ) (policy : BitVec 32) (priority : ℕ) (check : Bool) :
    Except Errno TaskStruct :=
  __schedSetscheduler K env current p isStop piTaskPrio (schedParamAttr p policy priority)
    check true

def sysSchedSetscheduler (env : SetschedEnv) (current p : TaskStruct) (isStop : Bool)
    (piTaskPrio : Option ℤ) (policy : BitVec 32) (priority : ℕ) : Except Errno TaskStruct :=
  if policy.toInt < 0 then .error .einval
  else _schedSetscheduler K env current p isStop piTaskPrio policy priority true

def sysSchedSetparam (env : SetschedEnv) (current p : TaskStruct) (isStop : Bool)
    (piTaskPrio : Option ℤ) (priority : ℕ) : Except Errno TaskStruct :=
  _schedSetscheduler K env current p isStop piTaskPrio setparamPolicy priority true

def schedAttrSizeVer0 : ℕ := 48

def schedAttrSizeVer1 : ℕ := 56

def pageSize : ℕ := 4096

/-- A structure size of zero means the first version of the structure. -/
def effectiveSize (size : ℕ) : ℕ := if size = 0 then schedAttrSizeVer0 else size

/-- What a copy of `size` bytes leaves of a field at `offset` in a zeroed structure. -/
def copiedWord (size offset : ℕ) (w : BitVec 32) : BitVec 32 :=
  (w.setWidth (8 * min 4 (size - offset))).setWidth 32

/-- `sched_copy_attr` on a structure of the given size that `copy_struct_from_user` can read.
The bytes that a short structure does not have are zero. -/
def schedCopyAttr (size : ℕ) (uattr : SchedAttr) : Except Errno SchedAttr :=
  let size := effectiveSize size
  if size < schedAttrSizeVer0 ∨ pageSize < size then .error .e2big
  else if uattr.has schedFlagUtilClamp && size < schedAttrSizeVer1 then .error .einval
  else
    .ok { uattr with
      schedNice := clamp uattr.schedNice minNice maxNice
      schedUtilMin := copiedWord size 48 uattr.schedUtilMin
      schedUtilMax := copiedWord size 52 uattr.schedUtilMax }

def getParams (p : TaskStruct) (attr : SchedAttr) : SchedAttr :=
  if taskHasDlPolicy p then K.getparamDl p attr
  else if taskHasRtPolicy p then { attr with schedPriority := p.rtPriority }
  else { attr with schedNice := taskNice p }

/-- The attribute `sys_sched_setattr` hands on once `sched_copy_attr` is done. -/
def schedSetattrAttr (p : TaskStruct) (attr : SchedAttr) : SchedAttr :=
  let attr :=
    if attr.has schedFlagKeepPolicy then { attr with schedPolicy := setparamPolicy } else attr
  if attr.has schedFlagKeepParams then getParams K p attr else attr

def sysSchedSetattr (env : SetschedEnv) (current p : TaskStruct) (isStop : Bool)
    (piTaskPrio : Option ℤ) (size : ℕ) (uattr : SchedAttr) : Except Errno TaskStruct :=
  match schedCopyAttr size uattr with
  | .error e => .error e
  | .ok attr =>
      if attr.schedPolicy.toInt < 0 then .error .einval
      else
        __schedSetscheduler K env current p isStop piTaskPrio (schedSetattrAttr K p attr)
          true true

/-! ## Nice values that reach `__sched_setscheduler` -/

theorem schedCopyAttr_nice {size : ℕ} {uattr attr : SchedAttr}
    (h : schedCopyAttr size uattr = .ok attr) :
    minNice ≤ attr.schedNice ∧ attr.schedNice ≤ maxNice := by
  have hclamp : minNice ≤ clamp uattr.schedNice minNice maxNice ∧
      clamp uattr.schedNice minNice maxNice ≤ maxNice := by
    simp only [clamp, minNice, maxNice]
    omega
  dsimp only [schedCopyAttr] at h
  split at h
  · simp at h
  · split at h
    · simp at h
    · rw [← Except.ok.inj h]
      exact hclamp

theorem getParams_nice (t : TaskStruct) (attr : SchedAttr) :
    (getParams K t attr).schedNice = attr.schedNice ∨
      (getParams K t attr).schedNice = taskNice t := by
  unfold getParams
  split
  · exact .inl (K.getparamDl_nice t attr)
  · split
    · exact .inl rfl
    · exact .inr rfl

theorem schedSetattrAttr_nice (t : TaskStruct) (attr : SchedAttr) :
    (schedSetattrAttr K t attr).schedNice = attr.schedNice ∨
      (schedSetattrAttr K t attr).schedNice = taskNice t := by
  have hpolicy : ∀ keep : Bool, (if keep then { attr with schedPolicy := setparamPolicy }
      else attr).schedNice = attr.schedNice := by
    intro keep
    cases keep <;> rfl
  dsimp only [schedSetattrAttr]
  generalize hkept : (if attr.has schedFlagKeepPolicy = true then
    { attr with schedPolicy := setparamPolicy } else attr) = kept
  have hnice : kept.schedNice = attr.schedNice := hkept ▸ hpolicy _
  split
  · exact hnice ▸ getParams_nice K t kept
  · exact .inl hnice

/-! ## What a call can do to the task -/

theorem attrPolicy_of_requestedPolicy {p : TaskStruct} {attr : SchedAttr} {policy : Policy}
    {resetOnFork : Bool} (h : requestedPolicy p attr = some (policy, resetOnFork)) :
    attrPolicy p attr = policy := by
  unfold requestedPolicy at h
  unfold attrPolicy
  split at h
  · simp_all
  · rename_i hneg
    obtain ⟨policy', hpolicy, heq⟩ := Option.map_eq_some_iff.mp h
    have hp : policy' = policy := congrArg Prod.fst heq
    simp [hneg, hpolicy, hp]

/-- The inversion of a successful call: all checks passed, and either the request
changed nothing or the change was made. -/
theorem __schedSetscheduler_ok {env : SetschedEnv} {current p q : TaskStruct} {isStop : Bool}
    {piTaskPrio : Option ℤ} {attr : SchedAttr} {user pi : Bool}
    (h : __schedSetscheduler K env current p isStop piTaskPrio attr user pi = .ok q) :
    ∃ policy resetOnFork, requestedPolicy p attr = some (policy, resetOnFork) ∧
      firstError (earlyChecks K env current p isStop policy resetOnFork attr user) = none ∧
      ((policy = p.policy ∧ changeRequested K p policy attr = false ∧
          q = { p with schedResetOnFork := resetOnFork }) ∨
        (¬(policy = p.policy ∧ changeRequested K p policy attr = false) ∧
          firstError (lateChecks env p policy attr user) = none ∧
          q = setschedulerChange K p piTaskPrio policy resetOnFork attr pi)) := by
  unfold __schedSetscheduler at h
  cases hreq : requestedPolicy p attr with
  | none => simp [hreq] at h
  | some request =>
      obtain ⟨policy, resetOnFork⟩ := request
      refine ⟨policy, resetOnFork, rfl, ?_⟩
      simp only [hreq] at h
      cases hearly : firstError
          (earlyChecks K env current p isStop policy resetOnFork attr user) with
      | some e => simp [hearly] at h
      | none =>
          refine ⟨rfl, ?_⟩
          simp only [hearly] at h
          by_cases hsame : policy = p.policy ∧ changeRequested K p policy attr = false
          · left
            refine ⟨hsame.1, hsame.2, ?_⟩
            simpa [hsame.1, hsame.1 ▸ hsame.2, eq_comm] using h
          · right
            refine ⟨hsame, ?_⟩
            rw [if_neg (by simpa using hsame)] at h
            cases hlate : firstError (lateChecks env p policy attr user) with
            | some e => simp [hlate] at h
            | none => exact ⟨rfl, by simpa [hlate, eq_comm] using h⟩

/-- The call without its error codes. -/
theorem __schedSetscheduler_toOption (env : SetschedEnv) (current p : TaskStruct)
    (isStop : Bool) (piTaskPrio : Option ℤ) (attr : SchedAttr) (user pi : Bool) :
    (__schedSetscheduler K env current p isStop piTaskPrio attr user pi).toOption =
      (requestedPolicy p attr).bind fun request ↦
        if firstError (earlyChecks K env current p isStop request.1 request.2 attr user) = none then
          if (request.1 = p.policy && !changeRequested K p request.1 attr) = true then
            some { p with schedResetOnFork := request.2 }
          else if firstError (lateChecks env p request.1 attr user) = none then
            some (setschedulerChange K p piTaskPrio request.1 request.2 attr pi)
          else none
        else none := by
  unfold __schedSetscheduler
  cases requestedPolicy p attr with
  | none => rfl
  | some request =>
      obtain ⟨policy, resetOnFork⟩ := request
      dsimp only [Option.bind_some]
      cases firstError (earlyChecks K env current p isStop policy resetOnFork attr user) with
      | some e => rfl
      | none =>
          dsimp only
          rw [if_pos rfl]
          split
          · rfl
          · cases firstError (lateChecks env p policy attr user) <;> rfl

def Refreshed (q : TaskStruct) : Prop :=
  q.normalPrio = normalPrio q ∧ q.seLoad = loadFor K q.policy q.staticPrio

theorem __setschedulerParams_eq (p : TaskStruct) (attr : SchedAttr) :
    __setschedulerParams K p attr =
      { p with
        policy := attrPolicy p attr
        dl := if dlPolicy (attrPolicy p attr) then K.setparamDl p.dl attr else p.dl
        staticPrio := if fairPolicy K (attrPolicy p attr) then niceToPrio attr.schedNice
          else p.staticPrio
        rtPriority := attr.schedPriority
        normalPrio := __normalPrio (attrPolicy p attr) attr.schedPriority
          (prioToNice (if fairPolicy K (attrPolicy p attr) then niceToPrio attr.schedNice
            else p.staticPrio))
        seLoad := loadFor K (attrPolicy p attr)
          (if fairPolicy K (attrPolicy p attr) then niceToPrio attr.schedNice
            else p.staticPrio) } := by
  unfold __setschedulerParams
  simp only [setLoadWeight_eq]
  cases hpolicy : attrPolicy p attr <;>
    cases hidle : K.fairPolicyIdle <;>
    simp [dlPolicy, fairPolicy, normalPrio, hidle]

/-- The effect of the change, read off field by field: with `KEEP_PARAMS` only the
reset flag and the clamps change, otherwise the parameters are stored and the
derived fields recomputed. -/
theorem setschedulerChange_eq (p : TaskStruct) (piTaskPrio : Option ℤ) (policy : Policy)
    (resetOnFork : Bool) (attr : SchedAttr) (pi : Bool) :
    ∃ lo hi, setschedulerChange K p piTaskPrio policy resetOnFork attr pi =
      if attr.has schedFlagKeepParams then
        { p with schedResetOnFork := resetOnFork, uclampMin := lo, uclampMax := hi }
      else
        { __setschedulerPrio (__setschedulerParams K { p with schedResetOnFork := resetOnFork }
            attr)
            (if pi then __rtEffectivePrio piTaskPrio
                (__normalPrio policy attr.schedPriority attr.schedNice)
              else __normalPrio policy attr.schedPriority attr.schedNice) with
          uclampMin := lo, uclampMax := hi } := by
  unfold setschedulerChange
  by_cases hkeep : attr.has schedFlagKeepParams = true
  · simp only [hkeep, ↓reduceIte]
    exact __setschedulerUclamp_frame K _ attr
  · simp only [hkeep, Bool.false_eq_true, ↓reduceIte]
    exact __setschedulerUclamp_frame K _ attr

structure SetschedEffect (p q : TaskStruct) (nice : ℤ) : Prop where
  cred : q.cred = p.cred
  myFixedPriority : q.myFixedPriority = p.myFixedPriority
  piTopTask : q.piTopTask = p.piTopTask
  staticPrio : q.staticPrio = p.staticPrio ∨ q.staticPrio = niceToPrio nice
  derived : (q.policy = p.policy ∧ q.staticPrio = p.staticPrio ∧
    q.normalPrio = p.normalPrio ∧ q.seLoad = p.seLoad) ∨ Refreshed K q

theorem setschedulerChange_effect (p : TaskStruct) (piTaskPrio : Option ℤ) (policy : Policy)
    (resetOnFork : Bool) (attr : SchedAttr) (pi : Bool) :
    SetschedEffect K p (setschedulerChange K p piTaskPrio policy resetOnFork attr pi)
      attr.schedNice := by
  obtain ⟨lo, hi, heq⟩ := setschedulerChange_eq K p piTaskPrio policy resetOnFork attr pi
  by_cases hkeep : attr.has schedFlagKeepParams = true
  · rw [heq, if_pos hkeep]
    exact ⟨rfl, rfl, rfl, .inl rfl, .inl ⟨rfl, rfl, rfl, rfl⟩⟩
  · rw [heq, if_neg hkeep, __setschedulerParams_eq]
    refine ⟨rfl, rfl, rfl, ?_, .inr ⟨rfl, rfl⟩⟩
    by_cases hfair :
        fairPolicy K (attrPolicy { p with schedResetOnFork := resetOnFork } attr) = true
    · exact .inr (by simp [__setschedulerPrio, hfair])
    · exact .inl (by simp [__setschedulerPrio, hfair])

theorem __schedSetscheduler_effect {env : SetschedEnv} {current p q : TaskStruct}
    {isStop : Bool} {piTaskPrio : Option ℤ} {attr : SchedAttr} {user pi : Bool}
    (h : __schedSetscheduler K env current p isStop piTaskPrio attr user pi = .ok q) :
    SetschedEffect K p q attr.schedNice := by
  obtain ⟨policy, resetOnFork, _, _, ⟨_, _, rfl⟩ | ⟨_, _, rfl⟩⟩ := __schedSetscheduler_ok K h
  · exact ⟨rfl, rfl, rfl, .inl rfl, .inl ⟨rfl, rfl, rfl, rfl⟩⟩
  · exact setschedulerChange_effect K p piTaskPrio policy resetOnFork attr pi

end NcuKernel.Sched
