import NcuKernel.Sched.Lifecycle
import NcuKernel.Sched.Ranges

/-!
# The objective of the patch

`my_fixed_priority` remembers the last successful call of the task itself. A fork
copies the parent's value, and between the copy and the reset at the end of
`copy_process` the child is visible; it is not picked before the reset. So
whenever `__schedule` selects a task, it assigns the argument of the task's own
last call, or nothing.
-/

namespace NcuKernel.Sched

open Runs

variable (K : Kernel)

/-- For each task the argument of its last call since it was created that had an argument in
range. -/
abbrev Calls := Pid → Option ℤ

def recordCall (s : State) (l : Label) (last : Calls) : Calls :=
  if enabled s l then
    match l with
    | .mySetProcessPriority cpu priority =>
        if 101 ≤ priority ∧ priority ≤ 139 then
          Function.update last (s.curr cpu) (some priority)
        else last
    | .copyProcess _ child => Function.update last child none
    | _ => last
  else last

theorem recordCall_of_not_enabled {s : State} {l : Label} (hen : enabled s l ≠ true)
    (last : Calls) : recordCall s l last = last :=
  if_neg hen

/-- The field agrees with the history, except in a child that still has its parent's
value. -/
structure Tracks (s : State) (last : Calls) : Prop where
  fixed : ∀ p t, s.task p = some t → s.clone p ≠ .copying →
    t.myFixedPriority = (last p).getD 0
  valid : ∀ p priority, last p = some priority → 101 ≤ priority ∧ priority ≤ 139
  copying : ∀ p, s.clone p = .copying → last p = none

/-! ## One step -/

/-- Where the fixed priority of a task outside `copy_process` comes from. -/
theorem step_myFixedPriority_cases {s : State} {l : Label} {p : Pid} {t' : TaskStruct}
    (ht' : (step K .nextAfterPick s l).task p = some t')
    (hclone : (step K .nextAfterPick s l).clone p ≠ .copying) :
    (∃ t, s.task p = some t ∧ s.clone p ≠ .copying ∧ t'.myFixedPriority = t.myFixedPriority) ∨
    (∃ cpu priority, l = .mySetProcessPriority cpu priority ∧ p = s.curr cpu ∧
      101 ≤ priority ∧ priority ≤ 139 ∧ t'.myFixedPriority = priority) ∨
    (s.clone p = .copying ∧ t'.myFixedPriority = 0) := by
  -- the fork of `p` is where it was, unless this step is the end of `copy_process`
  have hbefore : s.clone p ≠ .copying ∨ t'.myFixedPriority = 0 := by
    rcases step_clone_cases K .nextAfterPick s l p with
      heq | ⟨_, _, _, hcopying⟩ | ⟨rfl, hcopying, _⟩ | ⟨_, hcopied, _⟩
    · exact .inl (heq ▸ hclone)
    · exact absurd hcopying hclone
    · right
      obtain ⟨t, ht⟩ : ∃ t, s.task p = some t := by
        cases ht : s.task p with
        | some t => exact ⟨t, rfl⟩
        | none => simp [step, enabled, State.exists, ht] at ht'
      have hnew := step_copyProcessTail K .nextAfterPick ht hcopying
      rw [Option.some.inj (ht'.symm.trans hnew), copyProcessTail_myFixedPriority]
    · exact .inl (by simp [hcopied])
  by_cases hcopying : s.clone p = .copying
  · exact .inr (.inr ⟨hcopying, hbefore.resolve_left (absurd hcopying)⟩)
  · rcases step_task_cases K .nextAfterPick s l p with
      hsame | ⟨t, u, hen, ht, hu, hc⟩ | ⟨cpu, current, u, _, rfl, hfresh, hcur, hok, _⟩
    · exact .inl ⟨t', hsame.symm.trans ht', hcopying, rfl⟩
    · obtain rfl : u = t' := Option.some.inj (hu.symm.trans ht')
      rcases hc.myFixedPriority K _ with heq | hcall | ⟨rfl, _⟩
      · exact .inl ⟨t, ht, hcopying, heq⟩
      · exact .inr (.inl hcall)
      · simp [enabled, hcopying] at hen
    · exact absurd (step_copyProcess K .nextAfterPick hcur hfresh hok).2 hclone

theorem recordCall_of_call {s : State} {cpu : Cpu} {priority : ℤ} {t : TaskStruct}
    (ht : s.task (s.curr cpu) = some t) (hlo : 101 ≤ priority) (hhi : priority ≤ 139)
    (last : Calls) :
    recordCall s (.mySetProcessPriority cpu priority) last =
      Function.update last (s.curr cpu) (some priority) := by
  simp [recordCall, enabled, State.exists, ht, hlo, hhi]

/-- The history of a task changes when it makes a call in range or is created. -/
theorem recordCall_cases (s : State) (l : Label) (last : Calls) (p : Pid) :
    recordCall s l last p = last p ∨
    (∃ cpu priority, l = .mySetProcessPriority cpu priority ∧ p = s.curr cpu ∧
      101 ≤ priority ∧ priority ≤ 139 ∧ recordCall s l last p = some priority) ∨
    (∃ cpu, l = .copyProcess cpu p ∧ s.task p = none ∧ recordCall s l last p = none) := by
  by_cases hen : enabled s l = true
  · cases l with
    | mySetProcessPriority cpu priority =>
        obtain ⟨t, ht⟩ := Option.isSome_iff_exists.mp hen
        by_cases hrange : 101 ≤ priority ∧ priority ≤ 139
        · have hnew := recordCall_of_call ht hrange.1 hrange.2 last
          by_cases hp : p = s.curr cpu
          · exact .inr (.inl ⟨cpu, priority, rfl, hp, hrange.1, hrange.2, by simp [hnew, hp]⟩)
          · exact .inl (by simp [hnew, hp])
        · left
          simp only [recordCall, if_neg hrange, ite_self]
    | copyProcess cpu child =>
        by_cases hp : p = child
        · subst hp
          exact .inr (.inr ⟨cpu, rfl, (enabled_copyProcess hen).2, by simp [recordCall, hen]⟩)
        · exact .inl (by simp [recordCall, hen, hp])
    | _ => exact .inl (by simp [recordCall])
  · exact .inl (by rw [recordCall_of_not_enabled hen])

theorem Tracks.step {s : State} {last : Calls} (h : Tracks s last) (hlife : Lifecycle s)
    (l : Label) : Tracks (step K .nextAfterPick s l) (recordCall s l last) := by
  refine ⟨fun p t' ht' hclone ↦ ?_, fun p priority hp ↦ ?_, fun p hp ↦ ?_⟩
  · rcases recordCall_cases s l last p with
      hlast | ⟨cpu, priority, rfl, rfl, hlo, hhi, hlast⟩ | ⟨cpu, rfl, hfresh, hlast⟩
    · rcases step_myFixedPriority_cases K ht' hclone with
        ⟨t, ht, hbefore, heq⟩ | ⟨cpu, priority, rfl, rfl, hlo, hhi, heq⟩ | ⟨hcopying, hzero⟩
      · rw [heq, hlast]
        exact h.fixed p t ht hbefore
      · obtain ⟨t, ht⟩ := Option.isSome_iff_exists.mp (hlife.current cpu)
        rw [heq, recordCall_of_call ht hlo hhi]
        simp
      · rw [hzero, hlast, h.copying p hcopying]
        rfl
    · obtain ⟨t, ht⟩ := Option.isSome_iff_exists.mp (hlife.current cpu)
      have hnew := step_mySetProcessPriority K .nextAfterPick (by simp) ht hlo hhi
      rw [Option.some.inj (ht'.symm.trans hnew), hlast]
      rfl
    · -- a new child is inside `copy_process`
      rcases step_myFixedPriority_cases K ht' hclone with
        ⟨t, ht, _⟩ | ⟨_, _, hl, _⟩ | ⟨_, hzero⟩
      · simp [hfresh] at ht
      · simp at hl
      · rw [hzero, hlast]
        rfl
  · rcases recordCall_cases s l last p with
      hlast | ⟨_, _, _, _, hlo, hhi, hlast⟩ | ⟨_, _, _, hlast⟩
    · exact h.valid p priority (hlast.symm.trans hp)
    · obtain rfl := Option.some.inj (hlast.symm.trans hp)
      exact ⟨hlo, hhi⟩
    · simp [hlast] at hp
  · rcases step_clone_cases K .nextAfterPick s l p with
      heq | ⟨cpu, rfl, hfresh, _⟩ | ⟨_, _, hcopied⟩ | ⟨_, _, hnone⟩
    · have hcopying := heq.symm.trans hp
      rcases recordCall_cases s l last p with
        hlast | ⟨cpu, _, rfl, rfl, _⟩ | ⟨_, _, _, hlast⟩
      · rw [hlast]
        exact h.copying p hcopying
      · simp [hlife.clone_curr cpu] at hcopying
      · exact hlast
    · have hen : enabled s (.copyProcess cpu p) = true := by
        simp [enabled, State.exists, hlife.current cpu, hfresh]
      simp [recordCall, hen]
    · simp [hcopied] at hp
    · simp [hnone] at hp

/-! ## Runs -/

/-- At a `__schedule` step the selected task leaves with the argument of its own last
call as static priority, or with the static priority it had. -/
def AssignsLastCall (x : State × Calls) : Label → Prop
  | .schedule cpu preempt signalPending next =>
      enabled x.1 (.schedule cpu preempt signalPending next) = true →
        ∀ t t', x.1.task next = some t →
          (step K .nextAfterPick x.1 (.schedule cpu preempt signalPending next)).task next =
            some t' →
          t'.staticPrio = (x.2 next).getD t.staticPrio
  | _ => True

/-- A state in which no call has been made and no child is half made. -/
structure Fresh (s : State) : Prop where
  current : ∀ cpu, (s.task (s.curr cpu)).isSome
  clone : ∀ p, s.clone p = .none
  fixed : s.AllTasks fun _ t ↦ t.myFixedPriority = 0
  range : s.AllTasks fun _ t ↦ StaticPrioInRange t

theorem Fresh.lifecycle {s : State} (h : Fresh s) : Lifecycle s :=
  ⟨h.current, fun p hp ↦ absurd (h.clone p) hp⟩

theorem Fresh.tracks {s : State} (h : Fresh s) : Tracks s fun _ ↦ none where
  fixed p t ht _ := h.fixed p t ht
  valid _ _ hp := by simp at hp
  copying _ _ := rfl

theorem assignsLastCall_of_tracks {x : State × Calls} (h : Tracks x.1 x.2)
    (hlife : Lifecycle x.1) (hrange : x.1.AllTasks fun _ t ↦ StaticPrioInRange t) (l : Label) :
    AssignsLastCall K x l := by
  cases l with
  | schedule cpu preempt signalPending next =>
      intro hen t t' ht ht'
      have hborn : x.1.clone next ≠ .copying := by
        rw [hlife.clone_next hen]
        simp
      have hfixed := h.fixed next t ht hborn
      obtain rfl : applyFixedPriority t = t' :=
        Option.some.inj ((step_schedule_next K hen ht).symm.trans ht')
      cases hlast : x.2 next with
      | none =>
          have hzero : t.myFixedPriority = 0 := by simpa [hlast] using hfixed
          rw [applyFixedPriority_of_eq_zero hzero]
          rfl
      | some priority =>
          have heq : t.myFixedPriority = priority := by simpa [hlast] using hfixed
          obtain ⟨hlo, hhi⟩ := h.valid next priority hlast
          have h0 : t.staticPrio ≠ 0 := by
            have hpos : 100 ≤ t.staticPrio := (hrange next t ht).1
            omega
          rw [applyFixedPriority_of_mem h0 (by omega) (by omega)]
          exact heq
  | _ => trivial

/-- In every run, each selected task is assigned the argument of the last successful
call it has made itself, and nothing if it has made none. -/
theorem schedule_assigns_last_call (s : State) (ls : List Label) (hfresh : Fresh s)
    (hchecked : Along (step K .nextAfterPick) (fun s l ↦ l.NiceChecked s) s ls) :
    Along (instrument (step K .nextAfterPick) recordCall) (AssignsLastCall K)
      (s, fun _ ↦ none) ls := by
  -- the invariant: field and history agree, children are unborn, priorities in range
  refine along_of_invariant
    (P := fun x : State × Calls ↦ Tracks x.1 x.2 ∧ Lifecycle x.1 ∧
      x.1.AllTasks fun _ t ↦ StaticPrioInRange t)
    (fun x l hx hl ↦ ?_) (fun x l hx _ ↦ ?_)
    ⟨hfresh.tracks, hfresh.lifecycle, hfresh.range⟩
    ((along_instrument _ _ fun s l ↦ l.NiceChecked s).mpr hchecked)
  · obtain ⟨htracks, hlife, hrange⟩ := hx
    exact ⟨htracks.step K hlife l, hlife.step K _ l, staticPrio_mem_step K _ hrange hl⟩
  · obtain ⟨htracks, hlife, hrange⟩ := hx
    exact assignsLastCall_of_tracks K htracks hlife hrange l

/-- Every CPU runs a task of its own, with an even number; the odd ones are free. -/
def evenMachine : State where
  task p := if p % 2 = 0 then some (normalTask .linux 0 .user) else none
  life _ := ⟨.running, true, true⟩
  curr cpu := 2 * cpu
  clone _ := .none

theorem evenMachine_fresh : Fresh evenMachine where
  current cpu := by simp [evenMachine]
  clone _ := rfl
  fixed p t ht := by
    have hsome : (if p % 2 = 0 then some (normalTask .linux 0 .user) else none) = some t := ht
    split at hsome
    · rw [← Option.some.inj hsome]
      rfl
    · simp at hsome
  range p t ht := by
    have hsome : (if p % 2 = 0 then some (normalTask .linux 0 .user) else none) = some t := ht
    split at hsome
    · rw [← Option.some.inj hsome]
      exact ⟨by decide, by decide⟩
    · simp at hsome

/-- A task fixes its priority and forks; parent and child are selected in turn. -/
theorem schedule_assigns_last_call_fork :
    Along (instrument (step .linux .nextAfterPick) recordCall) (AssignsLastCall .linux)
      (evenMachine, fun _ ↦ none)
      [.mySetProcessPriority 0 110, .copyProcess 0 1, .copyProcessTail 1, .wakeUpNewTask 1,
        .schedule 0 false false 1, .schedule 0 false false 0] :=
  schedule_assigns_last_call .linux evenMachine _ evenMachine_fresh (by simp [Label.NiceChecked])

end NcuKernel.Sched
