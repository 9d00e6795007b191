import NcuKernel.Sched.System

/-!
# Births and switches

Tasks are never removed, every CPU always runs a task, and a child is on no run
queue and runs nowhere until `wake_up_new_task` has seen it.
-/

namespace NcuKernel.Sched

open Runs

variable (K : Kernel) (patch : Patch)

theorem step_of_enabled {s : State} {l : Label} (hen : enabled s l = true) :
    step K patch s l =
      { task := s.store (taskWrite K patch s l)
        life := lifeStep s (taskWrite K patch s l).isSome l
        curr := currStep s l
        clone := cloneStep s (taskWrite K patch s l).isSome l } :=
  if_pos hen

theorem step_of_not_enabled {s : State} {l : Label} (hen : enabled s l ≠ true) :
    step K patch s l = s :=
  if_neg hen

theorem enabled_copyProcess {s : State} {cpu : Cpu} {child : Pid}
    (hen : enabled s (.copyProcess cpu child) = true) :
    (∃ t, s.task (s.curr cpu) = some t) ∧ s.task child = none := by
  simp only [enabled, State.exists, Bool.and_eq_true, Bool.not_eq_true',
    Option.isSome_eq_false_iff, Option.isNone_iff_eq_none] at hen
  exact ⟨Option.isSome_iff_exists.mp hen.1, hen.2⟩

theorem enabled_copyProcessTail {s : State} {child : Pid}
    (hen : enabled s (.copyProcessTail child) = true) :
    (∃ t, s.task child = some t) ∧ s.clone child = .copying := by
  simp only [enabled, State.exists, Bool.and_eq_true, decide_eq_true_eq] at hen
  exact ⟨Option.isSome_iff_exists.mp hen.1, hen.2⟩

theorem enabled_wakeUpNewTask {s : State} {child : Pid}
    (hen : enabled s (.wakeUpNewTask child) = true) : s.clone child = .copied := by
  simp only [enabled, Bool.and_eq_true, decide_eq_true_eq] at hen
  exact hen.2

theorem step_task_of_write {s : State} {l : Label} {q : Pid}
    {w : Option TaskStruct} (hen : enabled s l = true)
    (hw : taskWrite K patch s l = w.map (Prod.mk q)) (p : Pid) :
    (step K patch s l).task p = if p = q then w.or (s.task q) else s.task p := by
  rw [step_of_enabled K patch hen, hw]
  cases w with
  | none =>
      split
      · rename_i hp
        rw [hp]
        rfl
      · rfl
  | some t =>
      split
      · rename_i hp
        rw [hp]
        exact s.store_self q t
      · rename_i hp
        exact s.store_ne t hp

theorem step_exists {s : State} {p : Pid} (h : (s.task p).isSome) (l : Label) :
    ((step K patch s l).task p).isSome := by
  obtain ⟨t, ht⟩ := Option.isSome_iff_exists.mp h
  obtain ⟨t', ht', _⟩ := step_task_of_some K patch ht l
  exact Option.isSome_iff_exists.mpr ⟨t', ht'⟩

/-- Everything a step can do to the fork that makes one child. -/
theorem step_clone_cases (s : State) (l : Label) (p : Pid) :
    (step K patch s l).clone p = s.clone p ∨
    (∃ cpu, l = .copyProcess cpu p ∧ s.task p = none ∧
      (step K patch s l).clone p = .copying) ∨
    (l = .copyProcessTail p ∧ s.clone p = .copying ∧ (step K patch s l).clone p = .copied) ∨
    (l = .wakeUpNewTask p ∧ s.clone p = .copied ∧ (step K patch s l).clone p = .none) := by
  by_cases hen : enabled s l = true
  · rw [step_of_enabled K patch hen]
    cases l with
    | copyProcess cpu child =>
        by_cases hborn : (taskWrite K patch s (.copyProcess cpu child)).isSome ∧ p = child
        · obtain ⟨hforked, rfl⟩ := hborn
          exact .inr (.inl ⟨cpu, rfl, (enabled_copyProcess hen).2, by simp [cloneStep, hforked]⟩)
        · left
          by_cases hforked : (taskWrite K patch s (.copyProcess cpu child)).isSome
          · have hp : p ≠ child := fun heq ↦ hborn ⟨hforked, heq⟩
            simp [cloneStep, hforked, hp]
          · simp [cloneStep, hforked]
    | copyProcessTail child =>
        by_cases hp : p = child
        · subst hp
          exact .inr (.inr (.inl ⟨rfl, (enabled_copyProcessTail hen).2, by simp [cloneStep]⟩))
        · exact .inl (by simp [cloneStep, hp])
    | wakeUpNewTask child =>
        by_cases hp : p = child
        · subst hp
          exact .inr (.inr (.inr ⟨rfl, enabled_wakeUpNewTask hen, by simp [cloneStep]⟩))
        · exact .inl (by simp [cloneStep, hp])
    | _ => exact .inl rfl
  · exact .inl (by rw [step_of_not_enabled K patch hen])

/-- A task that has been woken is not forked again. -/
theorem step_clone_of_none {s : State} {p : Pid} (hp : (s.task p).isSome)
    (hclone : s.clone p = .none) (l : Label) : (step K patch s l).clone p = .none := by
  rcases step_clone_cases K patch s l p with
    hsame | ⟨_, _, hfresh, _⟩ | ⟨_, hcopying, _⟩ | ⟨_, _, hnone⟩
  · rw [hsame]
    exact hclone
  · simp [hfresh] at hp
  · simp [hclone] at hcopying
  · exact hnone

theorem step_mySetProcessPriority {s : State} {cpu : Cpu} {t : TaskStruct} {priority : ℤ}
    (hpatch : patch ≠ .none) (ht : s.task (s.curr cpu) = some t) (hlo : 101 ≤ priority)
    (hhi : priority ≤ 139) :
    (step K patch s (.mySetProcessPriority cpu priority)).task (s.curr cpu) =
      some { t with myFixedPriority := priority } := by
  have hen : enabled s (.mySetProcessPriority cpu priority) = true := by
    simp [enabled, State.exists, ht]
  rw [step_task_of_write K patch hen (taskWrite_mySetProcessPriority K patch hpatch ht priority),
    mySetProcessPriority_of_mem t hlo hhi, if_pos rfl]
  rfl

theorem step_mySetProcessPriority_of_not_mem {s : State} {cpu : Cpu} {t : TaskStruct}
    {priority : ℤ} (hpatch : patch ≠ .none) (ht : s.task (s.curr cpu) = some t)
    (hout : priority < 101 ∨ 139 < priority) :
    step K patch s (.mySetProcessPriority cpu priority) = s := by
  have hen : enabled s (.mySetProcessPriority cpu priority) = true := by
    simp [enabled, State.exists, ht]
  rw [step_of_enabled K patch hen, taskWrite_mySetProcessPriority K patch hpatch ht,
    mySetProcessPriority_of_not_mem t hout]
  rfl

theorem step_copyProcess {s : State} {cpu : Cpu} {child : Pid} {current t : TaskStruct}
    (hcur : s.task (s.curr cpu) = some current) (hfresh : s.task child = none)
    (hok : copyProcess K current = .ok t) :
    (step K patch s (.copyProcess cpu child)).task child = some t ∧
      (step K patch s (.copyProcess cpu child)).clone child = .copying := by
  have hen : enabled s (.copyProcess cpu child) = true := by
    simp [enabled, State.exists, hcur, hfresh]
  have hw : taskWrite K patch s (.copyProcess cpu child) = (some t).map (Prod.mk child) := by
    simp [taskWrite, hcur, hok, Except.toOption]
  refine ⟨?_, ?_⟩
  · rw [step_task_of_write K patch hen hw child, if_pos rfl]
    rfl
  · rw [step_of_enabled K patch hen, hw]
    simp [cloneStep]

theorem step_copyProcessTail {s : State} {child : Pid} {t : TaskStruct}
    (ht : s.task child = some t) (hcopying : s.clone child = .copying) :
    (step K patch s (.copyProcessTail child)).task child = some (copyProcessTail K patch t) := by
  have hen : enabled s (.copyProcessTail child) = true := by
    simp [enabled, State.exists, ht, hcopying]
  have hw : taskWrite K patch s (.copyProcessTail child) =
      (some (copyProcessTail K patch t)).map (Prod.mk child) := by
    simp [taskWrite, ht]
  rw [step_task_of_write K patch hen hw child, if_pos rfl]
  rfl

theorem step_schedule_next {s : State} {cpu : Cpu} {preempt signalPending : Bool} {next : Pid}
    {t : TaskStruct} (hen : enabled s (.schedule cpu preempt signalPending next) = true)
    (ht : s.task next = some t) :
    (step K .nextAfterPick s (.schedule cpu preempt signalPending next)).task next =
      some (applyFixedPriority t) := by
  simp [step, hen, taskWrite, Patch.target, ht, State.store_self]

structure Lifecycle (s : State) : Prop where
  current : ∀ cpu, (s.task (s.curr cpu)).isSome
  unborn : ∀ p, s.clone p ≠ .none →
    (s.life p).state = .new ∧ (s.life p).onRq = false ∧ ∀ cpu, s.curr cpu ≠ p

theorem Lifecycle.clone_curr {s : State} (h : Lifecycle s) (cpu : Cpu) :
    s.clone (s.curr cpu) = .none := by
  by_contra hne
  exact (h.unborn _ hne).2.2 cpu rfl

/-- Whatever `__schedule` picks has been woken. -/
theorem Lifecycle.clone_next {s : State} (h : Lifecycle s) {cpu : Cpu}
    {preempt signalPending : Bool} {next : Pid}
    (hen : enabled s (.schedule cpu preempt signalPending next) = true) :
    s.clone next = .none := by
  have hpick : s.pickable cpu preempt signalPending next = true := by
    simp only [enabled, Bool.and_eq_true] at hen
    exact hen.2
  by_cases hprev : next = s.curr cpu
  · rw [hprev]
    exact h.clone_curr cpu
  · by_contra hne
    have hqueued : (s.life next).onRq = true := by
      simp only [State.pickable, hprev, if_false, Bool.and_eq_true] at hpick
      exact hpick.1
    have hoff := (h.unborn next hne).2.1
    simp [hoff] at hqueued

theorem enabled_schedule {s : State} {cpu : Cpu} {preempt signalPending : Bool} {next : Pid}
    (hen : enabled s (.schedule cpu preempt signalPending next) = true) :
    ∃ t, s.task next = some t := by
  simp only [enabled, State.exists, Bool.and_eq_true] at hen
  exact Option.isSome_iff_exists.mp hen.1.2

theorem enabled_attrCall {s : State} {l : Label} {cpu : Cpu} {p : Pid}
    (hcall : l.attrCall = some (cpu, p)) (hen : enabled s l = true) :
    (∃ current, s.task (s.curr cpu) = some current) ∧ ∃ t, s.task p = some t := by
  have hexist : (s.exists (s.curr cpu) && s.exists p) = true := by
    cases l <;> simp only [Label.attrCall, Option.some.injEq, Prod.mk.injEq, reduceCtorEq]
      at hcall <;> obtain ⟨rfl, rfl⟩ := hcall <;> exact hen
  rw [Bool.and_eq_true] at hexist
  exact ⟨Option.isSome_iff_exists.mp hexist.1, Option.isSome_iff_exists.mp hexist.2⟩

/-- What `__schedule` switches to runs on no CPU. -/
theorem enabled_schedule_off_cpu {s : State} {cpu : Cpu} {preempt signalPending : Bool}
    {next : Pid} (hen : enabled s (.schedule cpu preempt signalPending next) = true)
    (hne : next ≠ s.curr cpu) : (s.life next).onCpu = false := by
  simp only [enabled, State.pickable, hne, if_false, Bool.and_eq_true, Bool.not_eq_true'] at hen
  exact hen.2.2

theorem currStep_exists {s : State} {l : Label} (h : Lifecycle s) (hen : enabled s l = true)
    (cpu : Cpu) : (s.task (currStep s l cpu)).isSome := by
  cases l with
  | schedule cpu' preempt signalPending next =>
      obtain ⟨t, ht⟩ := enabled_schedule hen
      by_cases hcpu : cpu = cpu'
      · simp [currStep, hcpu, ht]
      · simpa [currStep, hcpu] using h.current cpu
  | _ => exact h.current cpu

/-- A child that is still unborn after a step was unborn before, or is the child of
this fork; the step left its life as it was, and no CPU switched to it. -/
theorem unborn_step {s : State} {l : Label} (h : Lifecycle s) (hen : enabled s l = true)
    (forked : Bool) {p : Pid} (hp : cloneStep s forked l p ≠ .none) :
    (lifeStep s forked l p).state = .new ∧ (lifeStep s forked l p).onRq = false ∧
      ∀ cpu, currStep s l cpu ≠ p := by
  cases l with
  | schedule cpu preempt signalPending next =>
      have hclone : s.clone p ≠ .none := hp
      obtain ⟨hstate, hrq, hcurr⟩ := h.unborn p hclone
      have hnext : p ≠ next := by
        rintro rfl
        exact hclone (h.clone_next hen)
      have hprev : p ≠ s.curr cpu := fun heq ↦ hcurr cpu heq.symm
      have hlife : lifeStep s forked (.schedule cpu preempt signalPending next) p = s.life p := by
        by_cases hsame : s.curr cpu = next
        · simp [lifeStep, hsame, hnext]
        · simp [lifeStep, hsame, hnext, hprev]
      refine ⟨by rw [hlife]; exact hstate, by rw [hlife]; exact hrq, fun cpu' ↦ ?_⟩
      by_cases hcpu : cpu' = cpu
      · simpa [currStep, hcpu] using hnext.symm
      · simpa [currStep, hcpu] using hcurr cpu'
  | copyProcess cpu child =>
      by_cases hborn : p = child ∧ forked = true
      · obtain ⟨rfl, rfl⟩ := hborn
        refine ⟨by simp [lifeStep], by simp [lifeStep], fun cpu' heq ↦ ?_⟩
        -- a fresh pid is not what some CPU runs
        have hcur := h.current cpu'
        have hcurr : s.curr cpu' = p := heq
        rw [hcurr] at hcur
        simp [enabled, State.exists, hcur] at hen
      · have hclone : s.clone p ≠ .none := by
          cases forked with
          | false => simpa [cloneStep] using hp
          | true =>
              have hne : p ≠ child := fun heq ↦ hborn ⟨heq, rfl⟩
              simpa [cloneStep, hne] using hp
        have hlife : lifeStep s forked (.copyProcess cpu child) p = s.life p := by
          cases forked with
          | false => simp [lifeStep]
          | true =>
              have hne : p ≠ child := fun heq ↦ hborn ⟨heq, rfl⟩
              simp [lifeStep, hne]
        rw [hlife]
        exact h.unborn p hclone
  | copyProcessTail child =>
      have hclone : s.clone p ≠ .none := by
        by_cases hp' : p = child
        · rw [hp', (enabled_copyProcessTail hen).2]
          simp
        · simpa [cloneStep, hp'] using hp
      exact h.unborn p hclone
  | wakeUpNewTask child =>
      have hne : p ≠ child := by
        rintro rfl
        simp [cloneStep] at hp
      have hclone : s.clone p ≠ .none := by simpa [cloneStep, hne] using hp
      have hlife : lifeStep s forked (.wakeUpNewTask child) p = s.life p := by
        simp [lifeStep, hne]
      rw [hlife]
      exact h.unborn p hclone
  | setCurrentState cpu state =>
      have hclone : s.clone p ≠ .none := hp
      have hne : p ≠ s.curr cpu := fun heq ↦ (h.unborn p hclone).2.2 cpu heq.symm
      have hlife : lifeStep s forked (.setCurrentState cpu state) p = s.life p := by
        simp [lifeStep, hne]
      rw [hlife]
      exact h.unborn p hclone
  | tryToWakeUp q =>
      have hclone : s.clone p ≠ .none := hp
      have hne : p ≠ q := by
        rintro rfl
        simp [enabled, (h.unborn p hclone).1] at hen
      have hlife : lifeStep s forked (.tryToWakeUp q) p = s.life p := by
        simp [lifeStep, hne]
      rw [hlife]
      exact h.unborn p hclone
  | _ => exact h.unborn p hp

theorem Lifecycle.step {s : State} (h : Lifecycle s) (l : Label) :
    Lifecycle (step K patch s l) := by
  by_cases hen : enabled s l = true
  · refine ⟨fun cpu ↦ ?_, fun p hp ↦ ?_⟩
    · have hcurr : (Sched.step K patch s l).curr = currStep s l := by
        rw [step_of_enabled K patch hen]
      rw [hcurr]
      exact step_exists K patch (currStep_exists h hen cpu) l
    · rw [step_of_enabled K patch hen] at hp ⊢
      exact unborn_step h hen _ hp
  · rw [step_of_not_enabled K patch hen]
    exact h

theorem Lifecycle.run {s : State} (h : Lifecycle s) (ls : List Label) :
    Lifecycle (run (Sched.step K patch) s ls) := by
  induction ls generalizing s with
  | nil => exact h
  | cons l ls ih => exact ih (h.step K patch l)

/-! ## One CPU at a time -/

structure OnOneCpu (s : State) : Prop where
  onCpu : ∀ cpu, (s.life (s.curr cpu)).onCpu = true
  unique : ∀ cpu cpu', s.curr cpu = s.curr cpu' → cpu = cpu'

theorem deactivatePrev_onCpu (preempt signalPending : Bool) (r : RunState) :
    (deactivatePrev preempt signalPending r).onCpu = r.onCpu := by
  unfold deactivatePrev
  split
  · split <;> rfl
  · rfl

/-- What `__schedule` switches to is the current task of no CPU. -/
theorem OnOneCpu.curr_ne_next {s : State} (h : OnOneCpu s) {cpu : Cpu}
    {preempt signalPending : Bool} {next : Pid}
    (hen : enabled s (.schedule cpu preempt signalPending next) = true)
    (hne : next ≠ s.curr cpu) (cpu' : Cpu) : s.curr cpu' ≠ next := by
  rintro rfl
  have hoff := enabled_schedule_off_cpu hen hne
  simp [h.onCpu cpu'] at hoff

theorem OnOneCpu.schedule {s : State} (h : OnOneCpu s) {cpu : Cpu}
    {preempt signalPending : Bool} {next : Pid}
    (hen : enabled s (.schedule cpu preempt signalPending next) = true) :
    OnOneCpu (Sched.step K patch s (.schedule cpu preempt signalPending next)) := by
  rw [step_of_enabled K patch hen]
  by_cases hne : next = s.curr cpu
  · -- the CPU goes on with `prev`
    subst hne
    refine ⟨fun cpu' ↦ ?_, fun cpu₁ cpu₂ ↦ ?_⟩
    · by_cases hprev : s.curr cpu' = s.curr cpu
      · simp [currStep, lifeStep, hprev, deactivatePrev_onCpu, h.onCpu cpu]
      · simp [currStep, lifeStep, hprev, h.onCpu cpu']
    · simpa [currStep] using h.unique cpu₁ cpu₂
  · have hnew := h.curr_ne_next hen hne
    have hne' : s.curr cpu ≠ next := hnew cpu
    refine ⟨fun cpu' ↦ ?_, fun cpu₁ cpu₂ ↦ ?_⟩
    · by_cases hcpu : cpu' = cpu
      · simp [currStep, lifeStep, hcpu, hne']
      · have hprev : s.curr cpu' ≠ s.curr cpu := fun heq ↦ hcpu (h.unique _ _ heq)
        simp [currStep, lifeStep, hcpu, hne', hprev, hnew cpu', h.onCpu cpu']
    · by_cases h₁ : cpu₁ = cpu
      · by_cases h₂ : cpu₂ = cpu
        · exact fun _ ↦ h₁.trans h₂.symm
        · simpa [currStep, h₁, h₂] using fun heq ↦ absurd heq.symm (hnew cpu₂)
      · by_cases h₂ : cpu₂ = cpu
        · simpa [currStep, h₁, h₂] using fun heq ↦ absurd heq (hnew cpu₁)
        · simpa [currStep, h₁, h₂] using h.unique cpu₁ cpu₂

theorem OnOneCpu.step {s : State} (h : OnOneCpu s) (hlife : Lifecycle s) (l : Label) :
    OnOneCpu (Sched.step K patch s l) := by
  by_cases hen : enabled s l = true
  · cases l with
    | schedule cpu preempt signalPending next => exact h.schedule K patch hen
    | copyProcess cpu child =>
        rw [step_of_enabled K patch hen]
        refine ⟨fun cpu' ↦ ?_, h.unique⟩
        have hne : s.curr cpu' ≠ child := by
          rintro rfl
          simp [enabled, State.exists, hlife.current cpu'] at hen
        cases (taskWrite K patch s (.copyProcess cpu child)).isSome with
        | false => simpa [lifeStep, currStep] using h.onCpu cpu'
        | true => simpa [lifeStep, currStep, hne] using h.onCpu cpu'
    | wakeUpNewTask child =>
        rw [step_of_enabled K patch hen]
        refine ⟨fun cpu' ↦ ?_, h.unique⟩
        have hne : s.curr cpu' ≠ child := by
          rintro rfl
          simp [enabled, hlife.clone_curr cpu'] at hen
        simpa [lifeStep, currStep, hne] using h.onCpu cpu'
    | setCurrentState cpu state =>
        rw [step_of_enabled K patch hen]
        refine ⟨fun cpu' ↦ ?_, h.unique⟩
        by_cases heq : s.curr cpu' = s.curr cpu
        · simpa [lifeStep, currStep, heq] using h.onCpu cpu
        · simpa [lifeStep, currStep, heq] using h.onCpu cpu'
    | tryToWakeUp p =>
        rw [step_of_enabled K patch hen]
        refine ⟨fun cpu' ↦ ?_, h.unique⟩
        by_cases heq : s.curr cpu' = p
        · have hon := h.onCpu cpu'
          rw [heq] at hon
          simpa [lifeStep, currStep, heq] using hon
        · simpa [lifeStep, currStep, heq] using h.onCpu cpu'
    | _ =>
        rw [step_of_enabled K patch hen]
        exact ⟨h.onCpu, h.unique⟩
  · rw [step_of_not_enabled K patch hen]
    exact h

end NcuKernel.Sched
