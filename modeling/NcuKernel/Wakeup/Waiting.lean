import NcuKernel.Wakeup.Progress
import Mathlib.Data.Fin.VecNotation

/-!
# Waiting for a condition

The loop that `set_current_state` and `try_to_wake_up` are made for, as it is written
above `set_current_state`:

    for (;;) {
        set_current_state(v);
        if (CONDITION)
            break;
        schedule();
    }
    __set_current_state(TASK_RUNNING);

and on the other side `CONDITION = 1; wake_up_state(p, mask);`. The task may be
preempted, migrated, signalled and woken by others at any point of the loop, and the
waker may be anywhere while it goes to sleep.
-/

namespace NcuKernel.Wakeup

open Function Runs

variable {P C : Type*} [DecidableEq P] [DecidableEq C]

/-- Where the waiting task is in its loop. -/
inductive Point where
  | set
  | test
  /-- The condition was read as false. -/
  | sleep
  /-- In `schedule`. -/
  | asleep
  | leave
  | done
  deriving DecidableEq, Repr

structure Waiting (P C : Type*) where
  kernel : State P C
  condition : Bool
  /-- `wake_up_state` has been called after the condition was set. -/
  woken : Bool
  point : Point

inductive WaitLabel (P C : Type*) where
  /-- Anything else that happens in the kernel. -/
  | kernel (l : Label P C)
  | setState (c : C)
  | test (c : C)
  | schedule (c : C)
  | resume (c : C)
  | leave (c : C)
  | condition
  | wakeUp (c : C)

/-- The waiting task runs on `c`, outside the scheduler. -/
def Waiting.at (w : Waiting P C) (p : P) (c : C) (point : Point) : Bool :=
  w.point = point && w.kernel.curr c = p && w.kernel.pc c = .task

variable (M : Machine P C) (p : P) (v mask : TaskState)

def waitStep (w : Waiting P C) : WaitLabel P C → Waiting P C
  | .kernel l =>
      -- the waiting task itself does nothing but run its loop
      if l.self.any fun c ↦ w.kernel.curr c = p then w else { w with kernel := step M w.kernel l }
  | .setState c =>
      if w.at p c .set && enabled M w.kernel (.setState c v) then
        { w with kernel := step M w.kernel (.setState c v), point := .test }
      else w
  | .test c =>
      if w.at p c .test then { w with point := if w.condition then .leave else .sleep } else w
  | .schedule c =>
      if w.at p c .sleep && enabled M w.kernel (.schedule c false) then
        { w with kernel := step M w.kernel (.schedule c false), point := .asleep }
      else w
  | .resume c => if w.at p c .asleep then { w with point := .set } else w
  | .leave c =>
      if w.at p c .leave && enabled M w.kernel (.setState c taskRunning) then
        { w with kernel := step M w.kernel (.setState c taskRunning), point := .done }
      else w
  | .condition => { w with condition := true }
  | .wakeUp c =>
      let call := if w.kernel.curr c = p then .wakeCurrent c mask else .wake c p mask
      -- the waker comes from the store to the condition, and gets the lock
      if w.condition && w.kernel.pc c = .task &&
          (w.kernel.curr c = p || (w.kernel.piLock p).isNone) then
        { w with kernel := step M w.kernel call, woken := true }
      else w

def Waiting.init (boot : C) : Waiting P C := ⟨State.init M boot, false, false, .set⟩

/-! ## What is known of the waiting task -/

variable {M p v mask} {w : Waiting P C} {s s' : State P C} {l : Label P C} {c d : C}

/-- Somebody has seen to it that the task will run. -/
def State.Attended (s : State P C) (p : P) : Prop :=
  s.state p = taskRunning ∨ s.state p = taskWaking ∨ ∃ d stage, s.pc d = .wake p stage

/-- The part that is about the kernel, for a task at `point`. -/
structure SleepInv (s : State P C) (p : P) (v : TaskState) (point : Point) : Prop where
  off : s.onRq p = .no → s.state p ≠ taskNew → s.state p ≠ taskRunning → point = .asleep
  read : ∀ c x, s.curr c = p → s.pc c = .schedRead false x → point = .asleep
  state : point = .test ∨ point = .sleep ∨ point = .asleep →
    s.state p = v ∨ s.state p = taskRunning ∨ s.state p = taskWaking

structure WaitInv (w : Waiting P C) (p : P) (v : TaskState) : Prop where
  sleep : SleepInv w.kernel p v w.point
  woken : w.woken = true → w.condition = true
  attended : w.woken = true → w.point = .sleep ∨ w.point = .asleep → w.kernel.Attended p

omit [DecidableEq P] in
theorem State.Attended.of_update {pc : Pc P C} (h : s.Attended p)
    (hpc : s'.pc = update s.pc c pc) (hstate : s'.state p = s.state p)
    (hwake : ∀ stage, s.pc c = .wake p stage → s'.Attended p) : s'.Attended p := by
  rcases h with hrun | hwak | ⟨d, stage, hd⟩
  · exact .inl (hstate.trans hrun)
  · exact .inr (.inl (hstate.trans hwak))
  · by_cases hdc : d = c
    · exact hwake stage (hdc ▸ hd)
    · exact .inr (.inr ⟨d, stage, by simpa [hpc, hdc] using hd⟩)

omit [DecidableEq P] [DecidableEq C] in
theorem Quiet.wake {pc : Pc P C} {stage : WakeStage} (hq : Quiet s l c pc)
    (hpc : s.pc c = .wake p stage) : ∃ stage', pc = .wake p stage' := by
  cases hq <;> simp_all

/-- A task that somebody attends to stays attended to until it sets its own state. -/
theorem State.Attended.of_move (hi : Inv M s) (h : s.Attended p) (hm : Move M s l s')
    (hself : ∀ c, l.self = some c → s.curr c ≠ p) : s'.Attended p := by
  -- a move that gives one task the state `TASK_RUNNING` or `TASK_WAKING`
  have hset : ∀ (c : C) (pc : Pc P C) (q : P) (x : TaskState), s'.pc = update s.pc c pc →
      s'.state = update s.state q x → x = taskRunning ∨ x = taskWaking →
      (p ≠ q → ∀ stage, s.pc c ≠ .wake p stage) → s'.Attended p := by
    intro c pc q x hpc hstate hx hother
    by_cases hpq : p = q
    · subst hpq
      have hp : s'.state p = x := by simp [hstate]
      exact hx.imp (fun hx ↦ hp.trans hx) fun hx ↦ .inl (hp.trans hx)
    · exact h.of_update hpc (by simp [hstate, hpq]) fun stage hw ↦ absurd hw (hother hpq stage)
  cases hm with
  | quiet c pc hquiet =>
      refine h.of_update rfl rfl fun stage hw ↦ ?_
      obtain ⟨stage', rfl⟩ := hquiet.wake hw
      exact .inr (.inr ⟨c, stage', by simp [State.goto]⟩)
  | setState c x hpc halive hidle hx hl hself' =>
      rcases hself' with hl | rfl
      · refine h.of_update (update_eq_self_iff.mpr hpc.symm).symm ?_ (by simp [hpc])
        simp [State.setTaskState, (hself c hl).symm]
      · exact hset c .task _ _ (update_eq_self_iff.mpr hpc.symm).symm rfl (.inl rfl)
          (by simp [hpc])
  | setIowait c b hpc => exact h
  | setFrozen c b hpc => exact h
  | signal c hpc => exact hset c _ _ _ rfl rfl (.inl rfl) (by simp [hpc])
  | sleep c hpc => exact h.of_update (c := c) rfl rfl (by simp [hpc])
  | countIowait c hpc => exact h.of_update (c := c) rfl rfl (by simp [hpc])
  | switch c next hpc => exact h.of_update (c := c) rfl rfl (by simp [hpc])
  | finish c hpc => exact h.of_update (c := c) rfl rfl (by simp [hpc])
  | put c hpc => exact h.of_update (c := c) rfl rfl (by simp [hpc])
  | wake c q hpc => exact h.of_update (c := c) rfl rfl (by simp [hpc])
  | wakeQueued c hpc =>
      exact hset c _ _ _ rfl rfl (.inl rfl) fun hne stage hw ↦ by simp_all
  | setWaking c hpc =>
      exact hset c _ _ _ rfl rfl (.inr rfl) fun hne stage hw ↦ by simp_all
  | @setCpu c q dest hpc =>
      refine h.of_update (c := c) rfl rfl fun stage hw ↦ ?_
      obtain rfl : q = p := by simp_all
      exact .inr (.inr ⟨c, .queue true, by simp [State.goto]⟩)
  | @push c q stage migrated hpc hstage =>
      refine h.of_update (c := c) rfl rfl fun stage' hw ↦ ?_
      obtain rfl : q = p := by simp_all
      have hok := hi.stage_ok hpc
      have hwak : s.state q = taskWaking := by
        rcases hstage with ⟨rfl, -⟩ | rfl <;> exact hok.2.1
      exact .inr (.inl hwak)
  | activate c hpc =>
      exact hset c _ _ _ rfl rfl (.inl rfl) fun hne stage hw ↦ by simp_all
  | takeList c hpc => exact h.of_update (c := c) rfl rfl (by simp [hpc])
  | activatePending c hpc =>
      exact hset c _ _ _ rfl rfl (.inl rfl) fun hne stage hw ↦ by simp_all
  | moveOut c dest piLocked hpc => exact h.of_update (c := c) rfl rfl (by simp [hpc])
  | moveIn c hpc => exact h.of_update (c := c) rfl rfl (by simp [hpc])
  | bear c dest hpc => exact hset c _ _ _ rfl rfl (.inl rfl) (by simp [hpc])
  | borne c hpc => exact h.of_update (c := c) rfl rfl (by simp [hpc])

omit [DecidableEq P] in
theorem SleepInv.frame {pc : Pc P C} {point : Point} (h : SleepInv s p v point)
    (hpc : s'.pc = update s.pc c pc) (hcurr : ∀ d, d ≠ c → s'.curr d = s.curr d)
    (hread : ∀ x, s'.curr c = p → pc ≠ .schedRead false x) (hrq : s'.onRq p = s.onRq p)
    (hstate : s'.state p = s.state p) : SleepInv s' p v point where
  off := by rw [hrq, hstate]; exact h.off
  read d x hd hx := by
    by_cases hdc : d = c
    · subst hdc
      exact absurd (by simpa [hpc] using hx) (hread x hd)
    · exact h.read d x ((hcurr d hdc).symm.trans hd) (by simpa [hpc, hdc] using hx)
  state := by rw [hstate]; exact h.state

/-- A move that puts one task in the state `TASK_RUNNING` or `TASK_WAKING`, or on a queue. -/
theorem SleepInv.touch {pc : Pc P C} {point : Point} (h : SleepInv s p v point) (q : P)
    (hpc : s'.pc = update s.pc c pc) (hcurr : s'.curr = s.curr)
    (hread : ∀ x, pc ≠ .schedRead false x)
    (hsame : p ≠ q → s'.onRq p = s.onRq p ∧ s'.state p = s.state p)
    (hoff : s'.onRq q = .no → s'.state q ≠ taskRunning →
      s.onRq q = .no ∧ s.state q ≠ taskNew ∧ s.state q ≠ taskRunning)
    (hstate : s'.state q = s.state q ∨ s'.state q = taskRunning ∨ s'.state q = taskWaking) :
    SleepInv s' p v point := by
  refine ⟨fun hno hnew hrun ↦ ?_, fun d x hd hx ↦ ?_, fun hp ↦ ?_⟩
  · by_cases hpq : p = q
    · subst hpq
      obtain ⟨hno, hnew, hrun⟩ := hoff hno hrun
      exact h.off hno hnew hrun
    · rw [(hsame hpq).1] at hno
      rw [(hsame hpq).2] at hnew hrun
      exact h.off hno hnew hrun
  · by_cases hdc : d = c
    · subst hdc
      exact absurd (by simpa [hpc] using hx) (hread x)
    · exact h.read d x (hcurr ▸ hd) (by simpa [hpc, hdc] using hx)
  · by_cases hpq : p = q
    · subst hpq
      rcases hstate with hsame | hnow
      · rw [hsame]
        exact h.state hp
      · exact .inr hnow
    · rw [(hsame hpq).2]
      exact h.state hp

/-- Only the task itself goes to sleep. -/
theorem SleepInv.of_move {point : Point} (hi : Inv M s) (h : SleepInv s p v point)
    (hm : Move M s l s') (hself : ∀ c, l.self = some c → s.curr c ≠ p) :
    SleepInv s' p v point := by
  cases hm with
  | quiet c pc hquiet =>
      refine h.frame rfl (fun _ _ ↦ rfl) (fun x hc ↦ ?_) rfl rfl
      cases hquiet with
      | schedule preempt hpc hdead hl hl' =>
          cases preempt with
          | false => exact absurd hc (hself c (hl' rfl))
          | true => simp
      | _ => simp
  | setState c x hpc halive hidle hx hl hl' =>
      have hrq : s.onRq (s.curr c) = .queued := (hi.curr_ok_of_task hpc).2.2
      rcases hl' with hl | rfl
      · have hp := (hself c hl).symm
        refine ⟨?_, h.read, ?_⟩
        · simpa [State.setTaskState, hp] using h.off
        · simpa [State.setTaskState, hp] using h.state
      · refine h.touch (s.curr c) (update_eq_self_iff.mpr hpc.symm).symm rfl (by simp)
          (fun hp ↦ ?_) (fun hno ↦ ?_) (.inr (.inl ?_))
        · simp [State.setTaskState, hp]
        · exact absurd (hrq.symm.trans hno) (by simp)
        · simp [State.setTaskState]
  | setIowait c b hpc => exact ⟨h.off, h.read, h.state⟩
  | setFrozen c b hpc => exact ⟨h.off, h.read, h.state⟩
  | signal c hpc =>
      have hrq : s.onRq (s.curr c) = .queued := (hi.read_ok hpc).2.2.1
      refine h.touch (s.curr c) rfl rfl (by simp) (fun hp ↦ ?_) (fun hno ↦ ?_)
        (.inr (.inl ?_))
      · simp [State.goto, State.setTaskState, hp]
      · exact absurd (hrq.symm.trans hno) (by simp)
      · simp [State.goto, State.setTaskState]
  | @sleep c prevState hpc hne =>
      by_cases hp : p = s.curr c
      · -- it has called `schedule`
        have hpoint := h.read c prevState hp.symm hpc
        refine ⟨fun _ _ _ ↦ hpoint, fun d x hd hx ↦ hpoint, h.state⟩
      · have hpc' : (s.sleep c prevState).pc = update s.pc c .schedDeactivated := rfl
        refine h.frame hpc' (fun _ _ ↦ rfl) (by simp) ?_ rfl
        simp [State.sleep, State.goto, State.deactivateTask, State.addUninterruptible, hp]
  | countIowait c hpc => exact h.frame (c := c) rfl (fun _ _ ↦ rfl) (by simp) rfl rfl
  | switch c next hpc =>
      exact h.frame (c := c) rfl (fun d hd ↦ by simp [hd]) (by simp) rfl rfl
  | finish c hpc => exact h.frame (c := c) rfl (fun _ _ ↦ rfl) (by simp) rfl rfl
  | put c hpc => exact h.frame (c := c) rfl (fun _ _ ↦ rfl) (by simp) rfl rfl
  | wake c q hpc => exact h.frame (c := c) rfl (fun _ _ ↦ rfl) (by simp) rfl rfl
  | @wakeQueued c q hpc hfree hrq =>
      refine h.touch q rfl rfl (by simp) (fun hp ↦ ?_) (fun hno ↦ ?_)
        (.inr (.inl ?_))
      · simp [State.goto, State.setTaskState, State.setPi, hp]
      · exact absurd (hrq.symm.trans hno) (by simp)
      · simp [State.goto, State.setTaskState, State.setPi]
  | @setWaking c q hpc =>
      obtain ⟨hno, -, -, hnew⟩ := hi.stage_ok hpc
      refine h.touch q rfl rfl (by simp) (fun hp ↦ ?_)
        (fun _ _ ↦ ⟨hno, hnew, hi.not_running_of_wake hpc hno⟩) (.inr (.inr ?_))
      · simp [State.goto, State.setTaskState, hp]
      · simp [State.goto, State.setTaskState]
  | setCpu c dest hpc => exact h.frame (c := c) rfl (fun _ _ ↦ rfl) (by simp) rfl rfl
  | push c migrated hpc => exact h.frame (c := c) rfl (fun _ _ ↦ rfl) (by simp) rfl rfl
  | @activate c q migrated hpc =>
      refine h.touch q rfl rfl (by simp) (fun hp ↦ ?_) (fun hno ↦ ?_)
        (.inr (.inl ?_))
      all_goals simp_all [State.goto, State.setPi, State.ttwuDoActivate, State.activateTask,
        State.setTaskState, State.addIowait, State.addUninterruptible]
  | takeList c hpc => exact h.frame (c := c) rfl (fun _ _ ↦ rfl) (by simp) rfl rfl
  | @activatePending c q rest hpc =>
      refine h.touch q rfl rfl (by simp) (fun hp ↦ ?_) (fun hno ↦ ?_)
        (.inr (.inl ?_))
      all_goals simp_all [State.goto, State.ttwuDoActivate, State.activateTask,
        State.setTaskState, State.addIowait, State.addUninterruptible]
  | @moveOut c q src dest piLocked hpc hmem =>
      refine h.touch q rfl rfl (by simp) (fun hp ↦ ?_) (fun hno ↦ ?_) (.inl rfl)
      all_goals simp_all [State.moveOut, State.goto, State.deactivateTask, State.setTaskCpu,
        State.setPi]
  | @moveIn c q dest piLocked hpc =>
      refine h.touch q rfl rfl (by simp) (fun hp ↦ ?_) (fun hno ↦ ?_) (.inl rfl)
      all_goals simp_all [State.goto, State.activateTask, State.setPi]
  | @bear c q dest hpc hpi hnew =>
      refine h.touch q rfl rfl (by simp) (fun hp ↦ ?_) (fun _ hrun ↦ ?_)
        (.inr (.inl ?_))
      all_goals simp_all [State.goto, State.setTaskState, State.setTaskCpu, State.setPi]
  | @borne c q hpc =>
      refine h.touch q rfl rfl (by simp) (fun hp ↦ ?_) (fun hno ↦ ?_) (.inl rfl)
      all_goals simp_all [State.goto, State.activateTask, State.setPi]

/-! ## Steps of the loop and of its surroundings -/

theorem SleepInv.step {point : Point} (hi : Inv M s) (h : SleepInv s p v point)
    (hself : ∀ c, l.self = some c → s.curr c ≠ p) : SleepInv (step M s l) p v point := by
  unfold Wakeup.step
  cases hs : next M s l with
  | none => exact h
  | some s' => exact h.of_move hi (hi.move hs) hself

theorem State.Attended.step (hi : Inv M s) (h : s.Attended p)
    (hself : ∀ c, l.self = some c → s.curr c ≠ p) : (step M s l).Attended p := by
  unfold Wakeup.step
  cases hs : next M s l with
  | none => exact h
  | some s' => exact h.of_move hi (hi.move hs) hself

theorem step_setState {x : TaskState} (hen : enabled M s (.setState c x) = true) :
    step M s (.setState c x) = s.setTaskState (s.curr c) x := by
  simp only [enabled, next, Option.isSome_ite, Bool.and_eq_true] at hen
  simp [step, next, hen]

theorem step_schedule {preempt : Bool} (hen : enabled M s (.schedule c preempt) = true) :
    step M s (.schedule c preempt) = s.goto c (.schedRead preempt (s.state (s.curr c))) := by
  simp only [enabled, next, Option.isSome_ite] at hen
  simp only [step, next, hen, if_true, Option.getD_some]

omit [DecidableEq P] [DecidableEq C] in
/-- A task that runs outside the scheduler is queued, and no CPU is about to take it off. -/
theorem SleepInv.of_running {point : Point} (hi : Inv M s) (hc : s.curr c = p)
    (hpc : s.pc c = .task) (hrq : s'.onRq = s.onRq) (hcurr : s'.curr = s.curr) (hpc' : s'.pc = s.pc)
    (hstate : point = .test ∨ point = .sleep ∨ point = .asleep →
      s'.state p = v ∨ s'.state p = taskRunning ∨ s'.state p = taskWaking) :
    SleepInv s' p v point := by
  have hqueued : s.onRq p = .queued := hc ▸ (hi.curr_ok_of_task hpc).2.2
  refine ⟨fun hno ↦ ?_, fun d x hd hx ↦ ?_, hstate⟩
  · rw [hrq, hqueued] at hno
    simp at hno
  · rw [hcurr] at hd
    rw [hpc'] at hx
    have hcpu : s.cpu p = c := hc ▸ (hi.curr_owned c).2
    obtain rfl : d = c := (hd ▸ (hi.curr_owned d).2 : s.cpu p = d).symm.trans hcpu
    simp [hpc] at hx

theorem Waiting.at_iff {point : Point} :
    w.at p c point = true ↔ w.point = point ∧ w.kernel.curr c = p ∧ w.kernel.pc c = .task := by
  simp [Waiting.at, and_assoc]

/-- The call of `wake_up_state`: a task that has read the condition as false is in a
state that the mask names, unless somebody has got there before. -/
theorem attended_of_wakeUp (hmask : WakeMask mask) (hmatch : v &&& mask ≠ 0)
    (hi : Inv M s) (hstate : s.state p = v ∨ s.state p = taskRunning ∨ s.state p = taskWaking)
    (hpc : s.pc c = .task) (hpi : s.curr c = p ∨ s.piLock p = none) :
    (step M s (if s.curr c = p then .wakeCurrent c mask else .wake c p mask)).Attended p := by
  rcases hstate with rfl | hdone
  · have hmatch : ¬(s.state p &&& mask = 0#32) := hmatch
    by_cases hc : s.curr c = p
    · subst hc
      left
      simp [Wakeup.step, next, hpc, hmask, hmatch, State.setTaskState]
    · have hfree : s.piLock p = none := hpi.resolve_left hc
      refine .inr (.inr ⟨c, .matched, ?_⟩)
      simp [Wakeup.step, next, hpc, hmask, hmatch, hfree, hc, Ne.symm hc, State.goto]
  · refine State.Attended.step hi (hdone.imp id .inl) fun d hd ↦ ?_
    split at hd <;> simp [Label.self] at hd

theorem WaitInv.step (hmask : WakeMask mask) (hmatch : v &&& mask ≠ 0)
    (h : Inv M w.kernel ∧ WaitInv w p v) (l : WaitLabel P C) :
    Inv M (waitStep M p v mask w l).kernel ∧ WaitInv (waitStep M p v mask w l) p v := by
  obtain ⟨hi, hw⟩ := h
  cases l with
  | kernel l =>
      simp only [waitStep]
      split
      · exact ⟨hi, hw⟩
      · rename_i hself
        have hself : ∀ c, l.self = some c → w.kernel.curr c ≠ p := fun c hc hp ↦ by
          simp [hc, hp] at hself
        exact ⟨hi.step l, hw.sleep.step hi hself, hw.woken,
          fun hwoken hp ↦ (hw.attended hwoken hp).step hi hself⟩
  | setState c =>
      simp only [waitStep, Bool.and_eq_true, Waiting.at_iff]
      split
      · rename_i hcond
        obtain ⟨⟨-, hc, hpc⟩, hen⟩ := hcond
        refine ⟨hi.step _, ?_, hw.woken, by simp⟩
        rw [step_setState hen]
        refine .of_running hi hc hpc rfl rfl rfl fun _ ↦ .inl ?_
        simp [State.setTaskState, hc]
      · exact ⟨hi, hw⟩
  | test c =>
      simp only [waitStep, Waiting.at_iff]
      split
      · rename_i hcond
        obtain ⟨hpoint, hc, hpc⟩ := hcond
        refine ⟨hi, .of_running hi hc hpc rfl rfl rfl fun _ ↦ hw.sleep.state (.inl hpoint),
          hw.woken, fun hwoken ↦ ?_⟩
        -- once the task has been woken it reads the condition as true
        simp [hw.woken hwoken]
      · exact ⟨hi, hw⟩
  | schedule c =>
      simp only [waitStep, Bool.and_eq_true, Waiting.at_iff]
      split
      · rename_i hcond
        obtain ⟨⟨hpoint, hc, hpc⟩, hen⟩ := hcond
        refine ⟨hi.step _, ?_, hw.woken, fun hwoken _ ↦ ?_⟩
        · rw [step_schedule hen]
          exact ⟨fun _ _ _ ↦ rfl, fun _ _ _ _ ↦ rfl, fun _ ↦ hw.sleep.state (.inr (.inl hpoint))⟩
        · rw [step_schedule hen]
          exact (hw.attended hwoken (.inl hpoint)).of_update (c := c) rfl rfl (by simp [hpc])
      · exact ⟨hi, hw⟩
  | resume c =>
      simp only [waitStep, Waiting.at_iff]
      split
      · rename_i hcond
        obtain ⟨-, hc, hpc⟩ := hcond
        exact ⟨hi, .of_running hi hc hpc rfl rfl rfl (by simp), hw.woken, by simp⟩
      · exact ⟨hi, hw⟩
  | leave c =>
      simp only [waitStep, Bool.and_eq_true, Waiting.at_iff]
      split
      · rename_i hcond
        obtain ⟨⟨-, hc, hpc⟩, hen⟩ := hcond
        refine ⟨hi.step _, ?_, hw.woken, by simp⟩
        rw [step_setState hen]
        exact .of_running hi hc hpc rfl rfl rfl (by simp)
      · exact ⟨hi, hw⟩
  | condition => exact ⟨hi, hw.sleep, fun _ ↦ rfl, hw.attended⟩
  | wakeUp c =>
      simp only [waitStep, Bool.and_eq_true, Bool.or_eq_true, decide_eq_true_eq,
        Option.isNone_iff_eq_none]
      split
      · rename_i hcond
        obtain ⟨⟨hcondition, hpc⟩, hpi⟩ := hcond
        refine ⟨hi.step _, hw.sleep.step hi fun d hd ↦ ?_, fun _ ↦ hcondition, fun _ hp ↦ ?_⟩
        · split at hd <;> simp [Label.self] at hd
        · exact attended_of_wakeUp hmask hmatch hi (hw.sleep.state (.inr hp)) hpc hpi
      · exact ⟨hi, hw⟩

omit [DecidableEq P] [DecidableEq C] in
theorem waitInv_init (boot : C) : WaitInv (Waiting.init M boot) p v := by
  refine ⟨⟨fun hno hnew hrun ↦ ?_, ?_, ?_⟩, ?_, ?_⟩
  · cases hidle : M.idleOf p <;> simp_all [Waiting.init, State.init]
  all_goals simp [Waiting.init, State.init]

/-- Once `wake_up_state` has been called after the condition was set, the waiting task
cannot be asleep unnoticed: if it is on no run queue it is being woken, and when all
CPUs have left the scheduler it is on a run queue. -/
theorem no_lost_wakeup (hmask : WakeMask mask) (hmatch : v &&& mask ≠ 0) (boot : C)
    (ls : List (WaitLabel P C)) :
    AllStates (waitStep M p v mask) (fun w ↦ w.woken = true → w.kernel.state p ≠ taskNew →
      (w.kernel.onRq p = .no → w.kernel.Attended p) ∧
      (w.kernel.Quiescent → w.kernel.onRq p = .queued)) (Waiting.init M boot) ls := by
  have hinit : Inv M (Waiting.init M boot).kernel ∧ WaitInv (Waiting.init M boot) p v :=
    ⟨inv_init boot, waitInv_init boot⟩
  have hstep : ∀ (w : Waiting P C) l, Inv M w.kernel ∧ WaitInv w p v →
      Inv M (waitStep M p v mask w l).kernel ∧ WaitInv (waitStep M p v mask w l) p v :=
    fun _ l h ↦ WaitInv.step hmask hmatch h l
  refine (allStates_of_step hstep hinit ls).imp fun w hinv hwoken hnew ↦ ?_
  obtain ⟨hi, hw⟩ := hinv
  have hatt : w.kernel.onRq p = .no → w.kernel.Attended p := fun hno ↦ by
    by_cases hrun : w.kernel.state p = taskRunning
    · exact .inl hrun
    · exact hw.attended hwoken (.inr (hw.sleep.off hno hnew hrun))
  refine ⟨hatt, fun hq ↦ ?_⟩
  have hrole : ∀ c, w.kernel.role c = {} := fun c ↦ by rw [State.role, (hq c).1]; rfl
  cases hrq : w.kernel.onRq p with
  | queued => rfl
  | migrating =>
      obtain ⟨c, hc⟩ := (hi.task p).moving hrq
      simp [hrole] at hc
  | no =>
      rcases hatt hrq with hrun | hwak | ⟨d, stage, hd⟩
      · obtain ⟨c, hc⟩ := (hi.task p).running hrun hrq
        simp [hrole] at hc
      · exact absurd hwak (hi.not_waking_of_quiescent hq p)
      · simp [(hq d).1] at hd

/-- Two CPUs with their idle tasks `0` and `1`, and one more task. -/
def twoCpus : Machine (Fin 3) (Fin 2) where
  idle := ![0, 1]
  idleOf := ![some 0, some 1, none]
  cpusShareCache _ _ := true
  ttwuQueue := true
  signalPendingState state pending fatal :=
    state &&& (taskInterruptible ||| taskWakekill) != 0 && pending &&
      (state &&& taskInterruptible != 0 || fatal)
  idleOf_eq_some := by decide
  cpusShareCache_self := by decide
  signalPendingState_dead := by decide

/-- The new task runs on CPU 0, finds the condition false and goes to sleep; CPU 1 sets
the condition and wakes it while CPU 0 is still in `__schedule`. -/
def sleepAndWake : List (WaitLabel (Fin 3) (Fin 2)) :=
  [.kernel (.wakeNew 0 2 0), .kernel (.cont 0), .kernel (.schedule 0 false),
    .kernel (.deactivate 0 false false), .kernel (.pick 0 2), .kernel (.cont 0),
    .kernel (.cont 0), .kernel (.cont 0), .setState 0, .test 0, .schedule 0,
    .kernel (.deactivate 0 false false), .kernel (.cont 0), .condition, .wakeUp 1,
    .kernel (.cont 1), .kernel (.cont 1), .kernel (.cont 1), .kernel (.ttwuQueue 1 true),
    .kernel (.pick 0 0), .kernel (.cont 0), .kernel (.cont 0), .kernel (.cont 0),
    .kernel (.ttwuPending 0), .kernel (.cont 0), .kernel (.cont 0)]

theorem no_lost_wakeup_twoCpus :
    (run (waitStep twoCpus 2 taskUninterruptible taskNormal) (Waiting.init twoCpus 0)
      (sleepAndWake.take 14)).kernel.onRq 2 = .no ∧
    (run (waitStep twoCpus 2 taskUninterruptible taskNormal) (Waiting.init twoCpus 0)
      sleepAndWake).woken = true ∧
    AllStates (waitStep twoCpus 2 taskUninterruptible taskNormal)
      (fun w ↦ w.woken = true → w.kernel.state 2 ≠ taskNew →
        (w.kernel.onRq 2 = .no → w.kernel.Attended 2) ∧
        (w.kernel.Quiescent → w.kernel.onRq 2 = .queued)) (Waiting.init twoCpus 0)
      sleepAndWake :=
  ⟨by decide, by decide, no_lost_wakeup (by decide) (by decide) 0 sleepAndWake⟩

end NcuKernel.Wakeup
