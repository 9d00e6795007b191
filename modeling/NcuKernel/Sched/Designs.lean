import NcuKernel.Sched.Objective

/-!
# The two designs of the readme

The first design assigns the fixed priority to `prev` when `__schedule` is entered, the
second to `next` when it has been picked. Over the same steps the records differ for the
tasks that do not run: the first design has already made the assignment that the second
makes when it switches to the task. The difference is gone at every switch.
-/

namespace NcuKernel.Sched

open Runs

variable (K : Kernel)

/-- Calls of `my_set_process_priority`, scheduling and forks. -/
def Label.OfDesigns : Label → Prop
  | .mySetProcessPriority _ _ => True
  | .schedule _ _ _ _ => True
  | .copyProcess _ _ => True
  | .copyProcessTail _ => True
  | .wakeUpNewTask _ => True
  | .setCurrentState _ _ => True
  | .tryToWakeUp _ => True
  | _ => False

/-! ## The relation -/

/-- The task runs, or is still being made. -/
def State.UpToDate (s : State) (p : Pid) : Prop := (∃ cpu, s.curr cpu = p) ∨ s.clone p ≠ .none

/-- State `s₁` of the first design is ahead of state `s₂` of the second by the assignments
to the tasks that do not run. -/
structure Ahead (s₁ s₂ : State) : Prop where
  life : s₁.life = s₂.life
  curr : s₁.curr = s₂.curr
  clone : s₁.clone = s₂.clone
  same : ∀ p, s₂.UpToDate p → s₁.task p = s₂.task p
  assigned : ∀ p, ¬ s₂.UpToDate p → s₁.task p = (s₂.task p).map applyFixedPriority

theorem Ahead.exists {s₁ s₂ : State} (h : Ahead s₁ s₂) (p : Pid) :
    s₁.exists p = s₂.exists p := by
  unfold State.exists
  by_cases hp : s₂.UpToDate p
  · rw [h.same p hp]
  · rw [h.assigned p hp, Option.isSome_map]

theorem Ahead.enabled {s₁ s₂ : State} (h : Ahead s₁ s₂) (l : Label) :
    enabled s₁ l = enabled s₂ l := by
  have hexists : s₁.exists = s₂.exists := funext h.exists
  cases l <;> simp only [Sched.enabled, State.pickable, hexists, h.life, h.curr, h.clone]

/-- Everything but the records agrees after a step if it agreed before. -/
theorem Ahead.frame {s₁ s₂ : State} (h : Ahead s₁ s₂) {l : Label} (hen : Sched.enabled s₂ l = true)
    (hforked : (taskWrite K .prevOnEntry s₁ l).isSome =
      (taskWrite K .nextAfterPick s₂ l).isSome) :
    (step K .prevOnEntry s₁ l).life = (step K .nextAfterPick s₂ l).life ∧
      (step K .prevOnEntry s₁ l).curr = (step K .nextAfterPick s₂ l).curr ∧
      (step K .prevOnEntry s₁ l).clone = (step K .nextAfterPick s₂ l).clone := by
  rw [step_of_enabled K _ ((h.enabled l).trans hen), step_of_enabled K _ hen, hforked]
  refine ⟨?_, ?_, ?_⟩
  · cases l <;> simp only [lifeStep, h.life, h.curr]
  · cases l <;> simp only [currStep, h.curr]
  · cases l <;> simp only [cloneStep, h.clone]

theorem step_curr {patch : Patch} {s : State} {l : Label}
    (hl : ∀ cpu preempt signalPending next, l ≠ .schedule cpu preempt signalPending next) :
    (step K patch s l).curr = s.curr := by
  by_cases hen : enabled s l = true
  · rw [step_of_enabled K patch hen]
    cases l with
    | schedule cpu preempt signalPending next => exact absurd rfl (hl _ _ _ _)
    | _ => rfl
  · rw [step_of_not_enabled K patch hen]

/-! ## Steps that write the same record -/

/-- Both designs write the same record, and the task it belongs to is up to date. -/
theorem Ahead.of_same_write {s₁ s₂ : State} (h : Ahead s₁ s₂) {l : Label} {q : Pid}
    {w : Option TaskStruct} (hen : Sched.enabled s₂ l = true)
    (h₁ : taskWrite K .prevOnEntry s₁ l = w.map (Prod.mk q))
    (h₂ : taskWrite K .nextAfterPick s₂ l = w.map (Prod.mk q))
    (hdate : ∀ p, (step K .nextAfterPick s₂ l).UpToDate p ↔
      s₂.UpToDate p ∨ p = q ∧ w.isSome) :
    Ahead (step K .prevOnEntry s₁ l) (step K .nextAfterPick s₂ l) := by
  obtain ⟨hlife, hcurr, hclone⟩ := h.frame K hen (by rw [h₁, h₂])
  have htask₁ := step_task_of_write K _ ((h.enabled l).trans hen) h₁
  have htask₂ := step_task_of_write K _ hen h₂
  refine ⟨hlife, hcurr, hclone, fun p hp ↦ ?_, fun p hp ↦ ?_⟩
  · rw [htask₁, htask₂]
    by_cases hq : p = q
    · subst hq
      rw [if_pos rfl, if_pos rfl]
      cases w with
      | some t => rfl
      | none => exact h.same p (by simpa using (hdate p).mp hp)
    · rw [if_neg hq, if_neg hq]
      exact h.same p (by simpa [hq] using (hdate p).mp hp)
  · have hbefore : ¬ s₂.UpToDate p := fun hdated ↦ hp ((hdate p).mpr (.inl hdated))
    rw [htask₁, htask₂]
    by_cases hq : p = q
    · subst hq
      rw [if_pos rfl, if_pos rfl]
      cases w with
      | some t => exact absurd ((hdate p).mpr (.inr ⟨rfl, rfl⟩)) hp
      | none => exact h.assigned p hbefore
    · rw [if_neg hq, if_neg hq]
      exact h.assigned p hbefore

theorem upToDate_iff_of_clone {s s' : State} (hcurr : s'.curr = s.curr) {p : Pid}
    (hclone : s'.clone p = s.clone p) : s'.UpToDate p ↔ s.UpToDate p := by
  unfold State.UpToDate
  rw [hcurr, hclone]

theorem Ahead.mySetProcessPriority {s₁ s₂ : State} (h : Ahead s₁ s₂) {cpu : Cpu} {priority : ℤ}
    (hen : Sched.enabled s₂ (.mySetProcessPriority cpu priority) = true) :
    Ahead (step K .prevOnEntry s₁ (.mySetProcessPriority cpu priority))
      (step K .nextAfterPick s₂ (.mySetProcessPriority cpu priority)) := by
  have hcur : s₂.UpToDate (s₂.curr cpu) := .inl ⟨cpu, rfl⟩
  obtain ⟨t, ht⟩ : ∃ t, s₂.task (s₂.curr cpu) = some t := Option.isSome_iff_exists.mp hen
  have ht₁ : s₁.task (s₁.curr cpu) = some t := by
    rw [h.curr, h.same _ hcur, ht]
  have hw₁ := taskWrite_mySetProcessPriority K .prevOnEntry (by simp) ht₁ priority
  rw [h.curr] at hw₁
  refine h.of_same_write K hen hw₁
    (taskWrite_mySetProcessPriority K .nextAfterPick (by simp) ht priority) fun p ↦ ?_
  have hsame : (step K .nextAfterPick s₂ (.mySetProcessPriority cpu priority)).UpToDate p ↔
      s₂.UpToDate p :=
    upToDate_iff_of_clone (step_curr K (by simp)) (by rw [step_of_enabled K _ hen]; rfl)
  rw [hsame]
  constructor
  · exact .inl
  · rintro (hp | ⟨rfl, _⟩)
    · exact hp
    · exact hcur

/-- Both designs fork the same record. -/
theorem Ahead.taskWrite_copyProcess {s₁ s₂ : State} (h : Ahead s₁ s₂) (cpu : Cpu) (child : Pid) :
    ∃ w : Option TaskStruct,
      taskWrite K .prevOnEntry s₁ (.copyProcess cpu child) = w.map (Prod.mk child) ∧
      taskWrite K .nextAfterPick s₂ (.copyProcess cpu child) = w.map (Prod.mk child) := by
  have hcur : s₁.task (s₁.curr cpu) = s₂.task (s₂.curr cpu) := by
    rw [h.curr]
    exact h.same _ (.inl ⟨cpu, rfl⟩)
  refine ⟨(s₂.task (s₂.curr cpu)).bind fun current ↦ (Sched.copyProcess K current).toOption,
    ?_, ?_⟩
  · simp only [taskWrite, hcur]
    cases s₂.task (s₂.curr cpu) <;> rfl
  · simp only [taskWrite]
    cases s₂.task (s₂.curr cpu) <;> rfl

theorem Ahead.copyProcess {s₁ s₂ : State} (h : Ahead s₁ s₂) {cpu : Cpu} {child : Pid}
    (hen : Sched.enabled s₂ (.copyProcess cpu child) = true) :
    Ahead (step K .prevOnEntry s₁ (.copyProcess cpu child))
      (step K .nextAfterPick s₂ (.copyProcess cpu child)) := by
  obtain ⟨w, hw₁, hw₂⟩ := h.taskWrite_copyProcess K cpu child
  refine h.of_same_write K hen hw₁ hw₂ fun p ↦ ?_
  have hcurr : (step K .nextAfterPick s₂ (.copyProcess cpu child)).curr = s₂.curr :=
    step_curr K (by simp)
  have hclone : (step K .nextAfterPick s₂ (.copyProcess cpu child)).clone p =
      if p = child ∧ w.isSome then .copying else s₂.clone p := by
    rw [step_of_enabled K _ hen, hw₂]
    cases w with
    | none => simp [cloneStep]
    | some t =>
        by_cases hp : p = child
        · simp [cloneStep, hp]
        · simp [cloneStep, hp]
  by_cases hp : p = child ∧ w.isSome
  · refine iff_of_true (.inr ?_) (.inr hp)
    rw [hclone, if_pos hp]
    simp
  · rw [upToDate_iff_of_clone hcurr (by rw [hclone, if_neg hp])]
    exact (or_iff_left hp).symm

theorem Ahead.copyProcessTail {s₁ s₂ : State} (h : Ahead s₁ s₂) {child : Pid}
    (hen : Sched.enabled s₂ (.copyProcessTail child) = true) :
    Ahead (step K .prevOnEntry s₁ (.copyProcessTail child))
      (step K .nextAfterPick s₂ (.copyProcessTail child)) := by
  have hcopying := (enabled_copyProcessTail hen).2
  have hchild : s₂.UpToDate child := .inr (by simp [hcopying])
  have hw₁ : taskWrite K .prevOnEntry s₁ (.copyProcessTail child) =
      ((s₂.task child).map (Sched.copyProcessTail K .nextAfterPick)).map (Prod.mk child) := by
    simp only [taskWrite, h.same child hchild, Option.map_map]
    rfl
  have hw₂ : taskWrite K .nextAfterPick s₂ (.copyProcessTail child) =
      ((s₂.task child).map (Sched.copyProcessTail K .nextAfterPick)).map (Prod.mk child) := by
    simp only [taskWrite, Option.map_map]
    rfl
  refine h.of_same_write K hen hw₁ hw₂ fun p ↦ ?_
  have hcurr : (step K .nextAfterPick s₂ (.copyProcessTail child)).curr = s₂.curr :=
    step_curr K (by simp)
  have hclone : (step K .nextAfterPick s₂ (.copyProcessTail child)).clone =
      Function.update s₂.clone child .copied := by
    rw [step_of_enabled K _ hen]
    rfl
  by_cases hp : p = child
  · subst hp
    refine iff_of_true (.inr ?_) (.inl hchild)
    simp [hclone]
  · rw [upToDate_iff_of_clone hcurr (by simp [hclone, hp])]
    simp [hp]

/-- Steps that only move a task in or out of sleep. -/
theorem Ahead.of_no_write {s₁ s₂ : State} (h : Ahead s₁ s₂) {l : Label}
    (hen : Sched.enabled s₂ l = true) (hw : ∀ patch s, taskWrite K patch s l = none)
    (hcurr : (step K .nextAfterPick s₂ l).curr = s₂.curr)
    (hclone : (step K .nextAfterPick s₂ l).clone = s₂.clone) :
    Ahead (step K .prevOnEntry s₁ l) (step K .nextAfterPick s₂ l) := by
  refine h.of_same_write K (q := 0) (w := none) hen (hw _ _) (hw _ _) fun p ↦ ?_
  rw [upToDate_iff_of_clone hcurr (by rw [hclone])]
  simp

/-! ## The end of a fork -/

/-- A child that `copy_process` has returned has no fixed priority. -/
def CopiedCleared (s : State) : Prop :=
  ∀ p t, s.clone p = .copied → s.task p = some t → t.myFixedPriority = 0

theorem CopiedCleared.step {s : State} (h : CopiedCleared s) (hlife : Lifecycle s) (l : Label) :
    CopiedCleared (step K .nextAfterPick s l) := by
  intro p t' hcopied ht'
  rcases step_myFixedPriority_cases K ht' (by simp [hcopied]) with
    ⟨t, ht, hbefore, heq⟩ | ⟨cpu, priority, rfl, rfl, _⟩ | ⟨_, hzero⟩
  · rw [heq]
    refine h p t ?_ ht
    rcases step_clone_cases K .nextAfterPick s l p with
      hsame | ⟨_, _, _, hnew⟩ | ⟨_, hcopying, _⟩ | ⟨_, _, hnew⟩
    · exact hsame.symm.trans hcopied
    · simp [hnew] at hcopied
    · exact absurd hcopying hbefore
    · simp [hnew] at hcopied
  · -- a task that makes a call has been woken
    have hwoken := step_clone_of_none K .nextAfterPick (hlife.current cpu) (hlife.clone_curr cpu)
      (.mySetProcessPriority cpu priority)
    simp [hwoken] at hcopied
  · exact hzero

theorem Ahead.wakeUpNewTask {s₁ s₂ : State} (h : Ahead s₁ s₂) (hcleared : CopiedCleared s₂)
    {child : Pid}
    (hen : Sched.enabled s₂ (.wakeUpNewTask child) = true) :
    Ahead (step K .prevOnEntry s₁ (.wakeUpNewTask child))
      (step K .nextAfterPick s₂ (.wakeUpNewTask child)) := by
  obtain ⟨hlives, hcurrs, hclones⟩ := h.frame K (l := .wakeUpNewTask child) hen rfl
  have htask₁ : (step K .prevOnEntry s₁ (.wakeUpNewTask child)).task = s₁.task := by
    rw [step_of_enabled K _ ((h.enabled _).trans hen)]
    rfl
  have htask₂ : (step K .nextAfterPick s₂ (.wakeUpNewTask child)).task = s₂.task := by
    rw [step_of_enabled K _ hen]
    rfl
  have hcurr : (step K .nextAfterPick s₂ (.wakeUpNewTask child)).curr = s₂.curr :=
    step_curr K (by simp)
  have hclone : (step K .nextAfterPick s₂ (.wakeUpNewTask child)).clone =
      Function.update s₂.clone child .none := by
    rw [step_of_enabled K _ hen]
    rfl
  have hcopied := enabled_wakeUpNewTask hen
  refine ⟨hlives, hcurrs, hclones, fun p hp ↦ ?_, fun p hp ↦ ?_⟩
  · rw [htask₁, htask₂]
    by_cases hchild : p = child
    · exact h.same p (.inr (by simp [hchild, hcopied]))
    · exact h.same p ((upToDate_iff_of_clone hcurr (by simp [hclone, hchild])).mp hp)
  · rw [htask₁, htask₂]
    by_cases hchild : p = child
    · -- from here on the child counts as not running, with nothing to assign
      subst hchild
      rw [h.same p (.inr (by simp [hcopied]))]
      cases ht : s₂.task p with
      | none => rfl
      | some t =>
          rw [Option.map_some, applyFixedPriority_of_eq_zero (hcleared p t hcopied ht)]
    · exact h.assigned p fun hdated ↦
        hp ((upToDate_iff_of_clone hcurr (by simp [hclone, hchild])).mpr hdated)

/-! ## The switch -/

theorem upToDate_schedule {s : State} {cpu : Cpu} {preempt signalPending : Bool} {next p : Pid}
    (hen : enabled s (.schedule cpu preempt signalPending next) = true) :
    (step K .nextAfterPick s (.schedule cpu preempt signalPending next)).UpToDate p ↔
      p = next ∨ (∃ cpu', cpu' ≠ cpu ∧ s.curr cpu' = p) ∨ s.clone p ≠ .none := by
  have hcurr : (step K .nextAfterPick s (.schedule cpu preempt signalPending next)).curr =
      Function.update s.curr cpu next := by
    rw [step_of_enabled K _ hen]
    rfl
  have hclone : (step K .nextAfterPick s (.schedule cpu preempt signalPending next)).clone =
      s.clone := by
    rw [step_of_enabled K _ hen]
    rfl
  unfold State.UpToDate
  rw [hcurr, hclone, ← or_assoc]
  refine or_congr_left ⟨?_, ?_⟩
  · rintro ⟨cpu', hp⟩
    by_cases hcpu : cpu' = cpu
    · left
      simpa [hcpu, eq_comm] using hp
    · right
      exact ⟨cpu', hcpu, by simpa [hcpu] using hp⟩
  · rintro (rfl | ⟨cpu', hcpu, hp⟩)
    · exact ⟨cpu, by simp⟩
    · exact ⟨cpu', by simpa [hcpu] using hp⟩

theorem Ahead.schedule {s₁ s₂ : State} (h : Ahead s₁ s₂) (hlife : Lifecycle s₂)
    (hcpu : OnOneCpu s₂) {cpu : Cpu} {preempt signalPending : Bool} {next : Pid}
    (hen : Sched.enabled s₂ (.schedule cpu preempt signalPending next) = true) :
    Ahead (step K .prevOnEntry s₁ (.schedule cpu preempt signalPending next))
      (step K .nextAfterPick s₂ (.schedule cpu preempt signalPending next)) := by
  have hdate := fun p ↦ upToDate_schedule K (p := p) hen
  have hprev : s₂.UpToDate (s₂.curr cpu) := .inl ⟨cpu, rfl⟩
  have hsame := h.same _ hprev
  obtain ⟨t, ht⟩ := Option.isSome_iff_exists.mp (hlife.current cpu)
  obtain ⟨u, hu⟩ := enabled_schedule hen
  -- the first design writes `prev`, the second `next`
  have hw₁ : taskWrite K .prevOnEntry s₁ (.schedule cpu preempt signalPending next) =
      (some (applyFixedPriority t)).map (Prod.mk (s₂.curr cpu)) := by
    simp [taskWrite, Patch.target, h.curr, hsame, ht]
  have hw₂ : taskWrite K .nextAfterPick s₂ (.schedule cpu preempt signalPending next) =
      (some (applyFixedPriority u)).map (Prod.mk next) := by
    simp [taskWrite, Patch.target, hu]
  have htask₁ := step_task_of_write K _ ((h.enabled _).trans hen) hw₁
  have htask₂ := step_task_of_write K _ hen hw₂
  obtain ⟨hlives, hcurrs, hclones⟩ := h.frame K hen (by rw [hw₁, hw₂]; rfl)
  refine ⟨hlives, hcurrs, hclones, fun p hp ↦ ?_, fun p hp ↦ ?_⟩
  · rw [htask₁, htask₂]
    by_cases hnext : p = next
    · subst hnext
      by_cases hp' : p = s₂.curr cpu
      · -- the CPU goes on with `prev`: both designs assign to it
        rw [if_pos hp', if_pos rfl]
        rw [← hp', hu] at ht
        rw [Option.some.inj ht]
        rfl
      · -- the first design has made the assignment that the second makes now
        have hold : ¬ s₂.UpToDate p := by
          rintro (⟨cpu', heq⟩ | hclone)
          · exact hcpu.curr_ne_next hen hp' cpu' heq
          · exact hclone (hlife.clone_next hen)
        rw [if_neg hp', if_pos rfl, h.assigned p hold, hu]
        rfl
    · have hold := ((hdate p).mp hp).resolve_left hnext
      have hp' : p ≠ s₂.curr cpu := by
        rintro rfl
        rcases hold with ⟨cpu', hne, heq⟩ | hclone
        · exact hne (hcpu.unique cpu' cpu heq)
        · exact hclone (hlife.clone_curr cpu)
      rw [if_neg hp', if_neg hnext]
      refine h.same p ?_
      rcases hold with ⟨cpu', _, heq⟩ | hclone
      · exact .inl ⟨cpu', heq⟩
      · exact .inr hclone
  · rw [hdate, not_or, not_or] at hp
    obtain ⟨hnext, hcurr, hclone⟩ := hp
    rw [htask₁, htask₂, if_neg hnext]
    by_cases hp' : p = s₂.curr cpu
    · -- `prev` is switched out: the first design has assigned, the second will
      rw [if_pos hp', hp', ht]
      rfl
    · rw [if_neg hp']
      refine h.assigned p ?_
      rintro (⟨cpu', heq⟩ | hdated)
      · refine hcurr ⟨cpu', ?_, heq⟩
        rintro rfl
        exact hp' heq.symm
      · exact hclone hdated

/-! ## Runs -/

/-- The relation together with what it needs of the second design's state. -/
structure Simulates (s₁ s₂ : State) : Prop where
  ahead : Ahead s₁ s₂
  lifecycle : Lifecycle s₂
  onOneCpu : OnOneCpu s₂
  cleared : CopiedCleared s₂

theorem Simulates.step {s₁ s₂ : State} (h : Simulates s₁ s₂) {l : Label} (hl : l.OfDesigns) :
    Simulates (step K .prevOnEntry s₁ l) (step K .nextAfterPick s₂ l) := by
  refine ⟨?_, h.lifecycle.step K _ l, h.onOneCpu.step K _ h.lifecycle l,
    h.cleared.step K h.lifecycle l⟩
  by_cases hen : enabled s₂ l = true
  · cases l with
    | mySetProcessPriority => exact h.ahead.mySetProcessPriority K hen
    | schedule => exact h.ahead.schedule K h.lifecycle h.onOneCpu hen
    | copyProcess => exact h.ahead.copyProcess K hen
    | copyProcessTail => exact h.ahead.copyProcessTail K hen
    | wakeUpNewTask => exact h.ahead.wakeUpNewTask K h.cleared hen
    | setCurrentState =>
        exact h.ahead.of_no_write K hen (fun _ _ ↦ rfl) (step_curr K (by simp))
          (by rw [step_of_enabled K _ hen]; rfl)
    | tryToWakeUp =>
        exact h.ahead.of_no_write K hen (fun _ _ ↦ rfl) (step_curr K (by simp))
          (by rw [step_of_enabled K _ hen]; rfl)
    | _ => exact hl.elim
  · rw [step_of_not_enabled K _ hen, step_of_not_enabled K _ (by rwa [h.ahead.enabled])]
    exact h.ahead

theorem simulates_self {s : State} (hlife : Lifecycle s) (hcpu : OnOneCpu s)
    (hzero : s.AllTasks fun _ t ↦ t.myFixedPriority = 0) : Simulates s s := by
  refine ⟨⟨rfl, rfl, rfl, fun _ _ ↦ rfl, fun p _ ↦ ?_⟩, hlife, hcpu,
    fun p t _ ht ↦ hzero p t ht⟩
  cases ht : s.task p with
  | none => rfl
  | some t => rw [Option.map_some, applyFixedPriority_of_eq_zero (hzero p t ht)]

/-- What can be observed is the same: who runs, the records of the tasks that run, and the
record that any fork gives its child. -/
structure AgreeWhereObserved (s₁ s₂ : State) : Prop where
  curr : s₁.curr = s₂.curr
  running : ∀ cpu, s₁.task (s₁.curr cpu) = s₂.task (s₂.curr cpu)
  forked : ∀ cpu child, s₂.task child = none →
    (step K .prevOnEntry s₁ (.copyProcess cpu child)).task child =
      (step K .nextAfterPick s₂ (.copyProcess cpu child)).task child

theorem Simulates.agree {s₁ s₂ : State} (h : Simulates s₁ s₂) : AgreeWhereObserved K s₁ s₂ where
  curr := h.ahead.curr
  running cpu := by
    rw [h.ahead.curr]
    exact h.ahead.same _ (.inl ⟨cpu, rfl⟩)
  forked cpu child hfresh := by
    have hfresh₁ : s₁.task child = none := by
      have hsame := h.ahead.exists child
      simpa [State.exists, hfresh] using hsame
    by_cases hen : enabled s₂ (.copyProcess cpu child) = true
    · obtain ⟨w, hw₁, hw₂⟩ := h.ahead.taskWrite_copyProcess K cpu child
      rw [step_task_of_write K _ ((h.ahead.enabled _).trans hen) hw₁,
        step_task_of_write K _ hen hw₂, if_pos rfl, if_pos rfl, hfresh, hfresh₁]
    · rw [step_of_not_enabled K _ hen, step_of_not_enabled K _ (by rwa [h.ahead.enabled]),
        hfresh, hfresh₁]

/-- Over the same calls, switches and forks the two designs agree on the tasks that run and
on every child when it is made. -/
theorem designs_agree (s : State) (ls : List Label) (hlife : Lifecycle s) (hcpu : OnOneCpu s)
    (hzero : s.AllTasks fun _ t ↦ t.myFixedPriority = 0) (hls : ∀ l ∈ ls, l.OfDesigns) (k : ℕ) :
    AgreeWhereObserved K (run (step K .prevOnEntry) s (ls.take k))
      (run (step K .nextAfterPick) s (ls.take k)) := by
  have hstep : ∀ s₁ s₂ l m, Simulates s₁ s₂ → l = m → l.OfDesigns → True →
      Simulates (step K .prevOnEntry s₁ l) (step K .nextAfterPick s₂ m) := by
    rintro s₁ s₂ l _ h rfl hl _
    exact h.step K hl
  have hrun := run_related hstep (simulates_self hlife hcpu hzero)
    (List.forall₂_same.mpr fun _ _ ↦ rfl) (along_of_forall hls)
    (along_of_forall fun _ _ ↦ trivial) k
  exact hrun.agree K

theorem evenMachine_onOneCpu : OnOneCpu evenMachine where
  onCpu _ := rfl
  unique _ _ h := Nat.eq_of_mul_eq_mul_left Nat.two_pos h

/-- Task 0 fixes 110 and loses its CPU to a child, which fixes 130; then task 0 takes the CPU
of task 2, is selected again, and forks. -/
def switchingRun : List Label :=
  [.mySetProcessPriority 0 110, .copyProcess 1 1, .copyProcessTail 1, .wakeUpNewTask 1,
    .schedule 0 false false 1, .mySetProcessPriority 0 130, .schedule 1 true false 0,
    .schedule 1 false false 0, .copyProcess 1 3]

theorem designs_agree_switching :
    AgreeWhereObserved .linux (run (step .linux .prevOnEntry) evenMachine switchingRun)
      (run (step .linux .nextAfterPick) evenMachine switchingRun) := by
  have hls : ∀ l ∈ switchingRun, l.OfDesigns := by simp [switchingRun, Label.OfDesigns]
  exact designs_agree .linux evenMachine switchingRun evenMachine_fresh.lifecycle
    evenMachine_onOneCpu evenMachine_fresh.fixed hls switchingRun.length

/-- While task 0 does not run, only the first design shows its new priority. -/
example :
    ((run (step .linux .prevOnEntry) evenMachine (switchingRun.take 5)).task 0).map
        TaskStruct.staticPrio = some 110 ∧
      ((run (step .linux .nextAfterPick) evenMachine (switchingRun.take 5)).task 0).map
        TaskStruct.staticPrio = some 120 := by
  decide

end NcuKernel.Sched
