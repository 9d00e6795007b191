import NcuKernel.Library.Runs
import NcuKernel.Uclamp.Buckets

/-!
# Tasks, task groups and the writers of clamps

The clamp a runnable task is accounted with depends on its own request, on the effective
clamps of its task group and on the system defaults, and each of the three can change
while it is runnable. Whoever holds `task_rq_lock` of a task is one step. A writer of a
group or of a sysctl holds `uclamp_mutex` only: its walk over the groups below is one
step per group, per value stored and per task visited, and anything that takes the lock
of a run queue can come between two of them.

`CONFIG_UCLAMP_TASK_GROUP` is on. A group takes part in the walk from its `css_online`
on; a walk that meets it earlier writes clamps that `css_online` computes again. What
other kernel files decide (the CPU, the scheduling class, the answers of
`autogroup_task_group`) is in the labels.
-/

set_option linter.style.nameCheck false

namespace NcuKernel.Uclamp

open Sched (ClampId SchedAttr schedCapacityScale uclampNone schedFlagUtilClamp)
open Function (update)

/-- `p->sched_task_group`; of an autogroup the clamps ask only that it is one. -/
inductive GroupRef (G : Type*) where
  | autogroup
  | cgroup (g : G)
  deriving DecidableEq

structure Task (C G : Type*) where
  uclampReq : ClampId → UclampSe
  uclamp : ClampId → UclampSe
  rtTask : Bool
  uclampEnabled : Bool
  schedResetOnFork : Bool
  onRq : Bool
  cpu : C
  css : G
  schedTaskGroup : GroupRef G

structure TaskGroup (G : Type*) where
  uclampReq : ClampId → UclampSe
  uclampPct : ClampId → ℕ
  uclamp : ClampId → UclampSe
  parent : Option G
  children : List G
  online : Bool

/-- Where the holder of `uclamp_mutex` is in `cpu_util_update_eff`. `stack` are the
groups that `css_for_each_descendant_pre` still has to come to, as far as it knows them. -/
inductive Walker (P G : Type*) where
  | idle
  | visit (stack : List G)
  | store (g : G) (eff : List (ClampId × ℕ)) (stack : List G)
  | iterate (g : G) (pending : Finset P) (stack : List G)

structure State (P C G : Type*) where
  task : P → Task C G
  rq : C → Rq
  group : G → TaskGroup G
  schedUclampUsed : Bool
  uclampDefault : ClampId → UclampSe
  sysctlMin : ℕ
  sysctlMax : ℕ
  sysctlMinRtDefault : ℕ
  walker : Walker P G

variable {P C G : Type*} [DecidableEq P] [DecidableEq C] [DecidableEq G]
variable (K : Config) (root : G)

/-! ## The effective clamp of a task -/

/-- The `clamp` of `linux/minmax.h`. -/
def clamp (value lo hi : ℕ) : ℕ := min (max value lo) hi

def uclampTgRestrict (s : State P C G) (p : P) (id : ClampId) : UclampSe :=
  let ucReq := (s.task p).uclampReq id
  match (s.task p).schedTaskGroup with
  | .autogroup => ucReq
  | .cgroup g =>
      if g = root then ucReq
      else
        let tgMin := ((s.group g).uclamp .min).value
        let tgMax := ((s.group g).uclamp .max).value
        uclampSeSet K ucReq (clamp ucReq.value tgMin tgMax) false

def uclampEffGet (s : State P C G) (p : P) (id : ClampId) : UclampSe :=
  let ucReq := uclampTgRestrict K root s p id
  let ucMax := s.uclampDefault id
  if ucMax.value < ucReq.value then ucMax else ucReq

def uclampEffValue (s : State P C G) (p : P) (id : ClampId) : ℕ :=
  if ((s.task p).uclamp id).active then ((s.task p).uclamp id).value
  else (uclampEffGet K root s p id).value

/-! ## On and off a run queue -/

def State.setTask (s : State P C G) (p : P) (t : Task C G) : State P C G :=
  { s with task := update s.task p t }

/-- Store what one of the two functions on a clamp of a run queue returns. -/
def State.putClamp (s : State P C G) (p : P) (id : ClampId) (r : Rq × UclampSe) : State P C G :=
  { s.setTask p { s.task p with uclamp := update (s.task p).uclamp id r.2 } with
    rq := update s.rq (s.task p).cpu r.1 }

def State.uclampRqIncId (s : State P C G) (p : P) (id : ClampId) : State P C G :=
  s.putClamp p id
    (Uclamp.uclampRqIncId (s.rq (s.task p).cpu) (uclampEffGet K root s p id) id)

def State.uclampRqDecId (s : State P C G) (p : P) (id : ClampId) : State P C G :=
  s.putClamp p id
    (Uclamp.uclampRqDecId K (s.rq (s.task p).cpu) ((s.task p).uclamp id) id)

def State.clearIdle (s : State P C G) (c : C) : State P C G :=
  { s with rq := update s.rq c { s.rq c with flagIdle := false } }

def State.uclampRqInc (s : State P C G) (p : P) : State P C G :=
  if !s.schedUclampUsed then s
  else if !(s.task p).uclampEnabled then s
  else ((s.uclampRqIncId K root p .min).uclampRqIncId K root p .max).clearIdle (s.task p).cpu

def State.uclampRqDec (s : State P C G) (p : P) : State P C G :=
  if !s.schedUclampUsed then s
  else if !(s.task p).uclampEnabled then s
  else (s.uclampRqDecId K p .min).uclampRqDecId K p .max

def State.uclampRqReincId (s : State P C G) (p : P) (id : ClampId) : State P C G :=
  if !((s.task p).uclamp id).active then s
  else
    let s' := (s.uclampRqDecId K p id).uclampRqIncId K root p id
    if id = .max then s'.clearIdle (s.task p).cpu else s'

def State.uclampUpdateActive (s : State P C G) (p : P) : State P C G :=
  (s.uclampRqReincId K root p .min).uclampRqReincId K root p .max

/-- `activate_task` on the CPU that `set_task_cpu` has been called with. -/
def State.activateTask (s : State P C G) (c : C) (p : P) : State P C G :=
  let s := (s.setTask p { s.task p with cpu := c }).uclampRqInc K root p
  s.setTask p { s.task p with onRq := true }

def State.deactivateTask (s : State P C G) (p : P) : State P C G :=
  (s.setTask p { s.task p with onRq := false }).uclampRqDec K p

/-- A change of `p` under `task_rq_lock`, between `dequeue_task` and `enqueue_task` if
`p` is queued: `rt_mutex_setprio`, `set_user_nice`, `__sched_setscheduler` and
`sched_move_task` have this shape. -/
def State.change (s : State P C G) (p : P) (f : Task C G → Task C G) : State P C G :=
  if (s.task p).onRq then
    let s := s.uclampRqDec K p
    (s.setTask p (f (s.task p))).uclampRqInc K root p
  else s.setTask p (f (s.task p))

/-! ## Requests of tasks -/

/-- `__setscheduler_uclamp` for one clamp: its turn of the loop and the assignment that
follows the loop. -/
def setschedulerClamp (minRtDefault : ℕ) (rt : Bool) (attr : SchedAttr) (id : ClampId)
    (ucSe : UclampSe) : UclampSe :=
  let ucSe :=
    if Sched.uclampReset attr id ⟨ucSe.value, ucSe.userDefined⟩ then
      uclampSeSet K ucSe (if rt && id = .min then minRtDefault else uclampNone id) false
    else ucSe
  if attr.has id.flag && id.util attr ≠ -1 then uclampSeSet K ucSe (id.util attr).toNat true
  else ucSe

/-- What `Sched` keeps of a clamp. -/
def UclampSe.request (ucSe : UclampSe) : Sched.UclampSe := ⟨ucSe.value, ucSe.userDefined⟩

/-- The requests are the ones that `__sched_setscheduler` works with there. -/
theorem setschedulerClamp_request (k : Sched.Kernel) (rt : Bool) (attr : SchedAttr) (id : ClampId)
    (ucSe : UclampSe) :
    (setschedulerClamp K k.sysctlSchedUclampUtilMinRtDefault rt attr id ucSe).request =
      Sched.setschedulerClamp k rt attr id ucSe.request := by
  simp only [setschedulerClamp, Sched.setschedulerClamp, UclampSe.request]
  split_ifs <;> simp_all [uclampSeSet, Sched.uclampSeSet]

def __setschedulerUclamp (minRtDefault : ℕ) (attr : SchedAttr) (t : Task C G) : Task C G :=
  { t with
    uclampReq := fun id ↦ setschedulerClamp K minRtDefault t.rtTask attr id (t.uclampReq id) }

def __uclampUpdateUtilMinRtDefault (minRtDefault : ℕ) (t : Task C G) : Task C G :=
  if (t.uclampReq .min).userDefined then t
  else
    { t with
      uclampReq := update t.uclampReq .min
        (uclampSeSet K (t.uclampReq .min) minRtDefault false) }

def uclampFork (t : Task C G) : Task C G :=
  let t := { t with uclamp := fun id ↦ { t.uclamp id with active := false } }
  if !t.schedResetOnFork then t
  else { t with uclampReq := fun id ↦ uclampSeSet K (t.uclampReq id) (uclampNone id) false }

/-- The answers of `autogroup_task_group` for a task of the group `css`: an autogroup stands
in for the root group only. -/
def AutogroupAnswer (css : G) (tg : GroupRef G) : Prop :=
  tg = .cgroup css ∨ css = root ∧ tg = .autogroup

instance (css : G) (tg : GroupRef G) : Decidable (AutogroupAnswer root css tg) :=
  inferInstanceAs (Decidable (_ ∨ _))

/-- `tg` is what `autogroup_task_group` answers. -/
def schedChangeGroup (tg : GroupRef G) (t : Task C G) : Task C G := { t with schedTaskGroup := tg }

/-- The task is in the group that `cgroup` has put it into: `sched_move_task` has run since
the last migration. -/
def State.Settled (s : State P C G) (p : P) : Prop :=
  AutogroupAnswer root (s.task p).css (s.task p).schedTaskGroup

instance (s : State P C G) (p : P) : Decidable (s.Settled root p) :=
  inferInstanceAs (Decidable (AutogroupAnswer ..))

/-! ## Requests of groups and of the system -/

def State.setGroup (s : State P C G) (g : G) (tg : TaskGroup G) : State P C G :=
  { s with group := update s.group g tg }

/-- What was written to `cpu.uclamp.min` or `cpu.uclamp.max`, after `strim` and
`cgroup_parse_float`: hundredths of a percent, as an `s64`. -/
inductive UclampInput where
  | max
  | percent (value : BitVec 64)

structure UclampRequest where
  percent : ℕ
  util : ℕ

/-- `none` is the error `ERANGE`. -/
def capacityFromPercent : UclampInput → Option UclampRequest
  | .max => some ⟨10000, schedCapacityScale⟩
  | .percent value =>
      if 10000 < value.toNat then none
      else some ⟨value.toNat, (value.toNat * 1024 + 5000) / 10000⟩

/-- The part of `cpu_uclamp_write` before `cpu_util_update_eff`. -/
def State.cpuUclampWrite (s : State P C G) (g : G) (id : ClampId) (req : UclampRequest) :
    State P C G :=
  let tg := s.group g
  let uclampReq :=
    if (tg.uclampReq id).value ≠ req.util then
      update tg.uclampReq id (uclampSeSet K (tg.uclampReq id) req.util false)
    else tg.uclampReq
  { s.setGroup g { tg with uclampReq := uclampReq, uclampPct := update tg.uclampPct id req.percent }
    with schedUclampUsed := true, walker := .visit [g] }

inductive Sysctl where
  | min
  | max
  | minRtDefault
  deriving DecidableEq

def State.setSysctl (s : State P C G) (which : Sysctl) (value : ℕ) : State P C G :=
  match which with
  | .min => { s with sysctlMin := value }
  | .max => { s with sysctlMax := value }
  | .minRtDefault => { s with sysctlMinRtDefault := value }

def State.setDefault (s : State P C G) (id : ClampId) (value : ℕ) : State P C G :=
  { s with
    uclampDefault := update s.uclampDefault id (uclampSeSet K (s.uclampDefault id) value false) }

/-- The part of `uclamp_update_root_tg` before `cpu_util_update_eff`. -/
def State.uclampUpdateRootTg (s : State P C G) : State P C G :=
  let tg := s.group root
  { s.setGroup root { tg with uclampReq := fun
      | .min => uclampSeSet K (tg.uclampReq .min) s.sysctlMin false
      | .max => uclampSeSet K (tg.uclampReq .max) s.sysctlMax false }
    with walker := .visit [root] }

/-- `sysctl_sched_uclamp_handler` up to its loop over the tasks. A value that is
refused is undone. -/
def State.sysctlSchedUclampHandler (s : State P C G) (which : Sysctl) (value : ℕ) :
    State P C G :=
  let s' := s.setSysctl which value
  if s'.sysctlMax < s'.sysctlMin ∨ schedCapacityScale < s'.sysctlMax ∨
      schedCapacityScale < s'.sysctlMinRtDefault then s
  else
    let updateRootTg := s.sysctlMin ≠ s'.sysctlMin ∨ s.sysctlMax ≠ s'.sysctlMax
    let s' := if s.sysctlMin ≠ s'.sysctlMin then s'.setDefault K .min s'.sysctlMin else s'
    let s' := if s.sysctlMax ≠ s'.sysctlMax then s'.setDefault K .max s'.sysctlMax else s'
    let s' :=
      if updateRootTg then { s' with schedUclampUsed := true }.uclampUpdateRootTg K root else s'
    if s.sysctlMinRtDefault ≠ s'.sysctlMinRtDefault then { s' with schedUclampUsed := true }
    else s'

/-! ## The walk over the groups -/

/-- The `eff` that `cpu_util_update_eff` computes for a group before its last line. -/
def State.capped (s : State P C G) (g : G) (id : ClampId) : ℕ :=
  let eff := ((s.group g).uclampReq id).value
  match (s.group g).parent with
  | none => eff
  | some q => if ((s.group q).uclamp id).value < eff then ((s.group q).uclamp id).value else eff

def State.eff (s : State P C G) (g : G) : ClampId → ℕ
  | .min => min (s.capped g .min) (s.capped g .max)
  | .max => s.capped g .max

/-- The clamps of `g` that have to change. -/
def State.clamps (s : State P C G) (g : G) : List (ClampId × ℕ) :=
  [ClampId.min, ClampId.max].filterMap fun id ↦
    if s.eff g id = ((s.group g).uclamp id).value then none else some (id, s.eff g id)

def State.storeEff (s : State P C G) (g : G) (id : ClampId) (value : ℕ) : State P C G :=
  let tg := s.group g
  s.setGroup g { tg with
    uclamp := update tg.uclamp id
      { tg.uclamp id with value := value % 2048, bucketId := uclampBucketId K value } }

variable [Fintype P]

/-- One step of `cpu_util_update_eff`, except for the visits to tasks. -/
def State.utilUpdateEff (s : State P C G) : Option (State P C G) :=
  match s.walker with
  | .idle => none
  | .visit [] => some { s with walker := .idle }
  | .visit (g :: stack) =>
      -- nothing changed: skip the groups below
      if s.clamps g = [] then some { s with walker := .visit stack }
      else some { s with walker := .store g (s.clamps g) stack }
  | .store g ((id, value) :: eff) stack =>
      some { s.storeEff K g id value with walker := .store g eff stack }
  | .store g [] stack =>
      some { s with
        walker := .iterate g (Finset.univ.filter fun p ↦ (s.task p).css = g) stack }
  | .iterate g pending stack =>
      -- the iterator ends when the tasks that stayed in the group have been visited
      if ∀ p ∈ pending, (s.task p).css ≠ g then
        some { s with walker := .visit ((s.group g).children ++ stack) }
      else none

/-! ## The system -/

inductive Label (P C G : Type*) where
  | activate (c : C) (p : P)
  | deactivate (p : P)
  | setprio (p : P) (rt uclampEnabled : Bool)
  | setscheduler (p : P) (attr : SchedAttr) (resetOnFork rt uclampEnabled : Bool)
  | updateUtilMinRtDefault (p : P)
  | fork (p child : P) (tg : GroupRef G) (rt uclampEnabled : Bool)
  | migrateCss (p : P) (g : G)
  | moveTask (p : P) (tg : GroupRef G)
  | cssAlloc (g parent : G)
  | cssOnline (g parent : G)
  | cssReleased (g : G)
  | uclampWrite (g : G) (id : ClampId) (input : UclampInput)
  | sysctl (which : Sysctl) (value : ℕ)
  | walk
  | updateActive (p : P)

def Walker.isIdle : Walker P G → Bool
  | .idle => true
  | _ => false

/-- A group that nobody can be in any more. -/
def State.Empty (s : State P C G) (g : G) : Prop :=
  (s.group g).children = [] ∧ ∀ p, (s.task p).css ≠ g ∧ (s.task p).schedTaskGroup ≠ .cgroup g

instance (s : State P C G) (g : G) : Decidable (s.Empty g) :=
  inferInstanceAs (Decidable (_ ∧ _))

def State.allocGroup (s : State P C G) (g parent : G) : State P C G :=
  s.setGroup g
    { uclampReq := fun id ↦ uclampSeSet K ⟨0, 0, false, false⟩ (uclampNone id) false
      uclampPct := fun _ ↦ 0
      uclamp := (s.group parent).uclamp
      parent := none
      children := []
      online := false }

def State.onlineGroup (s : State P C G) (g parent : G) : State P C G :=
  let s := s.setGroup g { s.group g with parent := some parent, children := [], online := true }
  { s.setGroup parent { s.group parent with children := (s.group parent).children ++ [g] }
    with walker := .visit [g] }

def State.releaseGroup (s : State P C G) (g : G) : State P C G :=
  let s' := s.setGroup g { s.group g with online := false }
  match (s.group g).parent with
  | none => s'
  | some q => s'.setGroup q { s'.group q with children := (s'.group q).children.erase g }

/-- The step a label stands for, if it can be taken. -/
def next (s : State P C G) : Label P C G → Option (State P C G)
  | .activate c p => if (s.task p).onRq then none else some (s.activateTask K root c p)
  | .deactivate p => if (s.task p).onRq then some (s.deactivateTask K p) else none
  | .setprio p rt uclampEnabled =>
      some (s.change K root p fun t ↦ { t with rtTask := rt, uclampEnabled := uclampEnabled })
  | .setscheduler p attr resetOnFork rt uclampEnabled =>
      let s := { s with schedUclampUsed := s.schedUclampUsed || attr.has schedFlagUtilClamp }
      some (s.change K root p fun t ↦ __setschedulerUclamp K s.sysctlMinRtDefault attr
        { t with
          rtTask := rt, uclampEnabled := uclampEnabled, schedResetOnFork := resetOnFork })
  | .updateUtilMinRtDefault p =>
      if (s.task p).rtTask then
        some (s.setTask p (__uclampUpdateUtilMinRtDefault K s.sysctlMinRtDefault (s.task p)))
      else none
  | .fork p child tg rt uclampEnabled =>
      if (s.task child).onRq ∨ p = child ∨ ¬AutogroupAnswer root (s.task p).css tg then none
      else
        let t := uclampFork K (s.task p)
        some (s.setTask child (schedChangeGroup tg { t with
          rtTask := rt, uclampEnabled := uclampEnabled, schedResetOnFork := false, onRq := false }))
  | .migrateCss p g =>
      -- cgroup_mutex is held until the last migration is through
      if (s.group g).online && s.Settled root p then some (s.setTask p { s.task p with css := g })
      else none
  | .moveTask p tg =>
      if AutogroupAnswer root (s.task p).css tg then
        some (s.change K root p (schedChangeGroup tg))
      else none
  | .cssAlloc g parent =>
      if !(s.group g).online && (s.group parent).online then some (s.allocGroup K g parent)
      else none
  | .cssOnline g parent =>
      if s.walker.isIdle && !(s.group g).online && (s.group parent).online then
        some (s.onlineGroup g parent)
      else none
  | .cssReleased g =>
      if (s.group g).online && g ≠ root && s.Empty g then some (s.releaseGroup g) else none
  | .uclampWrite g id input =>
      if s.walker.isIdle && (s.group g).online && g ≠ root then
        (capacityFromPercent input).map (s.cpuUclampWrite K g id)
      else none
  | .sysctl which value =>
      if s.walker.isIdle then some (s.sysctlSchedUclampHandler K root which value) else none
  | .walk => s.utilUpdateEff K
  | .updateActive p =>
      match s.walker with
      | .iterate g pending stack =>
          -- a task that has left may still be visited, and one that has joined too
          if p ∈ pending ∨ (s.task p).css = g then
            some { s.uclampUpdateActive K root p with walker := .iterate g (pending.erase p) stack }
          else none
      | _ => none

def step (s : State P C G) (l : Label P C G) : State P C G := (next K root s l).getD s

/-- `init_uclamp`, with no task on a run queue and all tasks in the root group. -/
def State.init (boot : C) : State P C G where
  task _ :=
    { uclampReq := fun id ↦ uclampSeSet K ⟨0, 0, false, false⟩ (uclampNone id) false
      uclamp := fun _ ↦ ⟨0, 0, false, false⟩
      rtTask := false
      uclampEnabled := true
      schedResetOnFork := false
      onRq := false
      cpu := boot
      css := root
      schedTaskGroup := .cgroup root }
  rq _ := initUclampRq
  group g :=
    let ucMax := uclampSeSet K ⟨0, 0, false, false⟩ (uclampNone .max) false
    { uclampReq := fun _ ↦ ucMax
      uclampPct := fun _ ↦ 0
      uclamp := fun _ ↦ ucMax
      parent := none
      children := []
      online := g = root }
  schedUclampUsed := false
  uclampDefault _ := uclampSeSet K ⟨0, 0, false, false⟩ (uclampNone .max) false
  sysctlMin := schedCapacityScale
  sysctlMax := schedCapacityScale
  sysctlMinRtDefault := schedCapacityScale
  walker := .idle

end NcuKernel.Uclamp
