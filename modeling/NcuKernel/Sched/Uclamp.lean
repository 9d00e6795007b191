import NcuKernel.Sched.Task

/-!
# Utilization clamps

The clamp requests a task carries. They matter here because
`__sched_setscheduler` refuses an attribute whose clamps cross, and because the
default of a clamp depends on the effective priority of the task.
-/

set_option linter.style.nameCheck false

namespace NcuKernel.Sched

/-! ## Flags of `sched_attr` -/

def schedFlagResetOnFork : BitVec 64 := 0x01

def schedFlagKeepPolicy : BitVec 64 := 0x08

def schedFlagKeepParams : BitVec 64 := 0x10

def schedFlagUtilClampMin : BitVec 64 := 0x20

def schedFlagUtilClampMax : BitVec 64 := 0x40

def schedFlagUtilClamp : BitVec 64 := schedFlagUtilClampMin ||| schedFlagUtilClampMax

def schedFlagAll : BitVec 64 := 0x7f

def schedFlagSugov : BitVec 64 := 0x10000000

def SchedAttr.has (attr : SchedAttr) (flag : BitVec 64) : Bool := attr.schedFlags &&& flag != 0

/-! ## Clamp values -/

inductive ClampId where
  | min
  | max
  deriving DecidableEq, Repr

def schedCapacityScale : ℕ := 1024

/-- The bit field `value` has room for `SCHED_CAPACITY_SCALE`, not for an `int`. -/
def uclampSeSet (value : ℕ) (userDefined : Bool) : UclampSe :=
  ⟨value % 2048, userDefined⟩

def uclampNone : ClampId → ℕ
  | .min => 0
  | .max => schedCapacityScale

def ClampId.flag : ClampId → BitVec 64
  | .min => schedFlagUtilClampMin
  | .max => schedFlagUtilClampMax

def ClampId.util (attr : SchedAttr) : ClampId → BitVec 32
  | .min => attr.schedUtilMin
  | .max => attr.schedUtilMax

def ClampId.req (p : TaskStruct) : ClampId → UclampSe
  | .min => p.uclampMin
  | .max => p.uclampMax

/-- The clamp value `uclamp_validate` ends up with for one clamp, as an `int`. -/
def ClampId.validated (id : ClampId) (p : TaskStruct) (attr : SchedAttr) : ℤ :=
  if attr.has id.flag then (id.util attr).toInt else (id.req p).value

/-- `util + 1` is an `int` and wraps; `SCHED_CAPACITY_SCALE + 1` is a `long`. -/
def ClampId.tooLarge (id : ClampId) (attr : SchedAttr) : Bool :=
  attr.has id.flag && (schedCapacityScale + 1 : ℤ) < (id.util attr + 1).toInt

variable (K : Kernel)

def uclampValidate (p : TaskStruct) (attr : SchedAttr) : Option Errno :=
  if !K.configUclampTask then some .eopnotsupp
  else if ClampId.min.tooLarge attr || ClampId.max.tooLarge attr then some .einval
  else
    let utilMin := ClampId.min.validated p attr
    let utilMax := ClampId.max.validated p attr
    if utilMin ≠ -1 ∧ utilMax ≠ -1 ∧ utilMax < utilMin then some .einval else none

def uclampReset (attr : SchedAttr) (id : ClampId) (ucSe : UclampSe) : Bool :=
  -- reset on a class change for a clamp that user space did not define
  (!attr.has schedFlagUtilClamp && !ucSe.userDefined) ||
    -- reset on sched_util_{min,max} == -1
    (attr.has id.flag && id.util attr = -1)

/-- One turn of the loop of `__setscheduler_uclamp`, and the assignment that
follows the loop for the same clamp. -/
def setschedulerClamp (rt : Bool) (attr : SchedAttr) (id : ClampId) (ucSe : UclampSe) :
    UclampSe :=
  let ucSe :=
    if uclampReset attr id ucSe then
      uclampSeSet (if rt && id = .min then K.sysctlSchedUclampUtilMinRtDefault
        else uclampNone id) false
    else ucSe
  if attr.has id.flag && id.util attr ≠ -1 then uclampSeSet (id.util attr).toNat true
  else ucSe

def __setschedulerUclamp (p : TaskStruct) (attr : SchedAttr) : TaskStruct :=
  if K.configUclampTask then
    { p with
      uclampMin := setschedulerClamp K (rtTask p) attr .min p.uclampMin
      uclampMax := setschedulerClamp K (rtTask p) attr .max p.uclampMax }
  else p

def uclampFork (p : TaskStruct) : TaskStruct :=
  if K.configUclampTask && p.schedResetOnFork then
    { p with
      uclampMin := uclampSeSet (uclampNone .min) false
      uclampMax := uclampSeSet (uclampNone .max) false }
  else p

/-- `uclamp_post_fork`: a real-time child gets the current default, unless its
clamp was set by user space. -/
def uclampPostFork (p : TaskStruct) : TaskStruct :=
  if K.configUclampTask && rtTask p && !p.uclampMin.userDefined then
    { p with uclampMin := uclampSeSet K.sysctlSchedUclampUtilMinRtDefault false }
  else p

/-! ## The clamp code touches the clamp requests only -/

theorem __setschedulerUclamp_frame (p : TaskStruct) (attr : SchedAttr) :
    ∃ lo hi, __setschedulerUclamp K p attr = { p with uclampMin := lo, uclampMax := hi } := by
  unfold __setschedulerUclamp
  split
  · exact ⟨_, _, rfl⟩
  · exact ⟨p.uclampMin, p.uclampMax, rfl⟩

theorem uclampFork_frame (p : TaskStruct) :
    ∃ lo hi, uclampFork K p = { p with uclampMin := lo, uclampMax := hi } := by
  unfold uclampFork
  split
  · exact ⟨_, _, rfl⟩
  · exact ⟨p.uclampMin, p.uclampMax, rfl⟩

theorem uclampPostFork_frame (p : TaskStruct) :
    ∃ lo, uclampPostFork K p = { p with uclampMin := lo } := by
  unfold uclampPostFork
  split
  · exact ⟨_, rfl⟩
  · exact ⟨p.uclampMin, rfl⟩

/-- A default clamp survives a class change unchanged unless it is a minimum and
the task is real-time: the one place where the clamps read the priority. -/
theorem setschedulerClamp_rt_irrelevant (rt rt' : Bool) (attr : SchedAttr) (ucSe : UclampSe) :
    setschedulerClamp K rt attr .max ucSe = setschedulerClamp K rt' attr .max ucSe := by
  simp [setschedulerClamp]

end NcuKernel.Sched
