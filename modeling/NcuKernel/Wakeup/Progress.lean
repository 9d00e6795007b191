import NcuKernel.Library.Counting
import NcuKernel.Wakeup.Safety

/-!
# Every call returns

CPUs wait for each other: for the lock of a run queue, for the end of a migration,
for `p->on_cpu`. Nobody waits in a circle, and every step of a CPU that is inside the
scheduler brings it closer to the end, except that a balancing pass of
`pick_next_task` has to be made up for. The CPUs get out of the scheduler in whatever
order they are run.
-/

namespace NcuKernel.Wakeup

open Function Runs Counting

variable {P C : Type*} [DecidableEq P] [DecidableEq C] {M : Machine P C} {s s' : State P C}
  {l : Label P C} {c d : C} {p q : P} {pc : Pc P C}

/-! ## Nobody waits in a circle -/

variable (M) in
def State.CanContinue (s : State P C) : Prop :=
  ∃ l : Label P C, l.continues = true ∧ enabled M s l = true

/-- The holder of the lock of a run queue waits for nobody. -/
theorem Inv.canContinue_of_locksRq (h : Inv M s) (hlock : (s.pc c).locksRq = true) :
    s.CanContinue M := by
  cases hpc : s.pc c with
  | schedRead preempt prevState =>
      exact ⟨.deactivate c false false, rfl, by simp [enabled, next, hpc]⟩
  | schedPick => exact ⟨.pick c (M.idle c), rfl, by simp [enabled, next, hpc]⟩
  | schedDeactivated | schedSwitched | schedFinish =>
      exact ⟨.cont c, rfl, by simp [enabled, next, State.cont, hpc]⟩
  | pending list =>
      refine ⟨.cont c, rfl, ?_⟩
      cases list with
      | nil => simp [enabled, next, State.cont, hpc, State.pendingCont]
      | cons p rest =>
          have hfree : s.onCpu p = false :=
            (h.claims c p .pending (by simp [State.mentions, hpc, Pc.mentions])).2.2.2
          simp [enabled, next, State.cont, hpc, State.pendingCont, hfree]
  | _ => simp [hpc, Pc.locksRq] at hlock

theorem Inv.canContinue_of_rqFree (h : Inv M s) (hfree : s.rqFree c = false) :
    s.CanContinue M :=
  h.canContinue_of_locksRq (c := c) (by simpa [State.rqFree] using hfree)

/-- Nor does a CPU that is leaving a task. -/
theorem Inv.canContinue_of_leaving (h : Inv M s) (hleave : (s.pc c).leaving = true) :
    s.CanContinue M := by
  cases hpc : s.pc c with
  | schedBalance => exact ⟨.cont c, rfl, by simp [enabled, next, State.cont, hpc]⟩
  | schedDeactivated | schedPick | schedSwitched | schedFinish =>
      exact h.canContinue_of_locksRq (c := c) (by simp [hpc, Pc.locksRq])
  | _ => simp [hpc, Pc.leaving] at hleave

theorem Inv.canContinue_of_moved (h : Inv M s) {dest : C} {piLocked : Bool}
    (hpc : s.pc c = .moved p dest piLocked) : s.CanContinue M := by
  by_cases hfree : s.rqFree dest = true
  · exact ⟨.cont c, rfl, by simp [enabled, next, State.cont, hpc, hfree]⟩
  · exact h.canContinue_of_rqFree (by simpa using hfree)

theorem Inv.canContinue_of_wake (h : Inv M s) {stage : WakeStage} (hpc : s.pc c = .wake p stage) :
    s.CanContinue M := by
  cases stage with
  | matched | offRq | waking =>
      exact ⟨.cont c, rfl, by simp [enabled, next, State.cont, hpc, State.wakeCont]⟩
  | runnable =>
      by_cases hfree : s.rqFree (s.cpu p) = true
      · by_cases hmig : s.onRq p = .migrating
        · -- the task is between two run queues, in the hands of a CPU that can go on
          obtain ⟨d, hd⟩ := (h.task p).moving hmig
          cases hpcd : s.pc d with
          | moved r dest piLocked => exact h.canContinue_of_moved hpcd
          | wake r stage => cases stage <;> simp [State.role, hpcd, Pc.role] at hd
          | _ => simp [State.role, hpcd, Pc.role] at hd
        · refine ⟨.cont c, rfl, ?_⟩
          simp only [enabled, next, State.cont, hpc, State.wakeCont, hfree, hmig, ne_eq,
            not_false_eq_true, decide_true, Bool.and_self, if_true]
          split <;> rfl
      · exact h.canContinue_of_rqFree (by simpa using hfree)
  | onCpu =>
      refine ⟨.ttwuQueue c false, rfl, ?_⟩
      simp only [enabled, next, hpc]
      split <;> rfl
  | spin =>
      by_cases hon : s.onCpu p = true
      · exact h.canContinue_of_leaving (h.leaving_of_onCpu (h.stage_ok hpc).1 hon)
      · exact ⟨.cont c, rfl, by simp [enabled, next, State.cont, hpc, State.wakeCont, hon]⟩
  | select => exact ⟨.select c c, rfl, by simp [enabled, next, hpc]⟩
  | queue migrated =>
      refine ⟨.ttwuQueue c false, rfl, ?_⟩
      simp only [enabled, next, hpc]
      split <;> rfl
  | activate migrated =>
      by_cases hfree : s.rqFree (s.cpu p) = true
      · exact ⟨.cont c, rfl, by simp [enabled, next, State.cont, hpc, State.wakeCont, hfree]⟩
      · exact h.canContinue_of_rqFree (by simpa using hfree)

/-- No CPU is inside the scheduler, and no wakeup is left to do. -/
def State.Quiescent (s : State P C) : Prop := ∀ c, s.pc c = .task ∧ s.wakeList c = []

theorem Inv.canContinue (h : Inv M s) (hbusy : ¬s.Quiescent) : s.CanContinue M := by
  obtain ⟨c, hc⟩ := not_forall.mp hbusy
  cases hpc : s.pc c with
  | task =>
      have hlist : s.wakeList c ≠ [] := fun hnil ↦ hc ⟨hpc, hnil⟩
      exact ⟨.ttwuPending c, rfl, by simp [enabled, next, hpc, hlist]⟩
  | schedBalance => exact h.canContinue_of_leaving (c := c) (by simp [hpc, Pc.leaving])
  | schedPut => exact ⟨.cont c, rfl, by simp [enabled, next, State.cont, hpc]⟩
  | wake p stage => exact h.canContinue_of_wake hpc
  | moved p dest piLocked => exact h.canContinue_of_moved hpc
  | born p =>
      by_cases hfree : s.rqFree (s.cpu p) = true
      · exact ⟨.cont c, rfl, by simp [enabled, next, State.cont, hpc, hfree]⟩
      · exact h.canContinue_of_rqFree (by simpa using hfree)
  | _ => exact h.canContinue_of_locksRq (c := c) (by simp [hpc, Pc.locksRq])

/-! ## A step brings a CPU closer to the end

A balancing pass leads back to the place where it began. It adds the step into the pass
and the one out of it to what is left to do.
-/

def WakeStage.rank : WakeStage → ℕ
  | .matched => 11
  | .runnable => 10
  | .offRq => 9
  | .waking => 8
  | .onCpu => 7
  | .spin => 6
  | .select => 5
  | .queue _ => 4
  | .activate _ => 1

def Pc.rank : Pc P C → ℕ
  | .task => 0
  | .schedRead _ _ => 6
  | .schedDeactivated => 5
  | .schedPick => 4
  | .schedBalance => 5
  | .schedSwitched _ => 3
  | .schedFinish _ _ => 2
  | .schedPut _ _ => 1
  | .wake _ stage => stage.rank
  | .pending list => list.length + 1
  | .moved _ _ _ => 1
  | .born _ => 1

/-- The steps that a label adds to what is left to do. -/
def Label.gain (l : Label P C) : ℕ := if l.balances then 2 else 0

omit [DecidableEq P] [DecidableEq C] in
theorem Quiet.rank_lt (hq : Quiet s l c pc) (hl : l.continues = true) :
    pc.rank < (s.pc c).rank + l.gain := by
  cases hq with
  | schedule _ _ _ hl' => simp [hl] at hl'
  | balance hpc hl' => simp [hpc, Pc.rank, Label.gain, hl']
  | offRq hpc hstage | released hpc hstage =>
      rcases hstage with rfl | rfl <;>
        exact Nat.lt_add_right _ (by simp [hpc, Pc.rank, WakeStage.rank])
  | _ => exact Nat.lt_add_right _ (by simp_all [Pc.rank, WakeStage.rank])

variable [Fintype C]

/-- What is left to do; a task on a wake list is still to be taken off it and activated. -/
def State.work (s : State P C) : ℕ := ∑ c, (s.pc c).rank + ∑ c, 3 * (s.wakeList c).length

omit [DecidableEq P] in
theorem work_lt_of_rank {n : ℕ} (hpc : s'.pc = update s.pc c pc)
    (hwake : s'.wakeList = s.wakeList) (hrank : pc.rank < (s.pc c).rank + n) :
    s'.work < s.work + n := by
  have hsum := sum_add_of_eq_off (f := fun d ↦ (s.pc d).rank) (g := fun d ↦ (s'.pc d).rank) c
    fun d hd ↦ by simp [hpc, hd]
  have hc : (s'.pc c).rank = pc.rank := by simp [hpc]
  simp only [State.work, hwake]
  omega

omit [DecidableEq P] in
theorem work_lt_of_push {n : ℕ} (hpc : s'.pc = update s.pc c pc)
    (hwake : s'.wakeList = update s.wakeList d (s.wakeList d ++ [p]))
    (hrank : pc.rank + 3 < (s.pc c).rank) : s'.work < s.work + n := by
  have hsum := sum_add_of_eq_off (f := fun d ↦ (s.pc d).rank) (g := fun d ↦ (s'.pc d).rank) c
    fun d hd ↦ by simp [hpc, hd]
  have hlen := sum_add_of_eq_off (f := fun e ↦ 3 * (s.wakeList e).length)
    (g := fun e ↦ 3 * (s'.wakeList e).length) d fun e he ↦ by simp [hwake, he]
  have hc : (s'.pc c).rank = pc.rank := by simp [hpc]
  have hd : (s'.wakeList d).length = (s.wakeList d).length + 1 := by simp [hwake]
  simp only [State.work]
  omega

omit [DecidableEq P] in
theorem work_lt_of_takeList {n : ℕ} (hpc : s.pc c = .task) (hlist : s.wakeList c ≠ [])
    (hpc' : s'.pc = update s.pc c (.pending (s.wakeList c)))
    (hwake : s'.wakeList = update s.wakeList c []) : s'.work < s.work + n := by
  have hsum := sum_add_of_eq_off (f := fun d ↦ (s.pc d).rank) (g := fun d ↦ (s'.pc d).rank) c
    fun d hd ↦ by simp [hpc', hd]
  have hlen := sum_add_of_eq_off (f := fun e ↦ 3 * (s.wakeList e).length)
    (g := fun e ↦ 3 * (s'.wakeList e).length) c fun e he ↦ by simp [hwake, he]
  have hpos := List.length_pos_of_ne_nil hlist
  have hc : (s'.pc c).rank = (s.wakeList c).length + 1 := by simp [hpc', Pc.rank]
  have hc₀ : (s.pc c).rank = 0 := by simp [hpc, Pc.rank]
  have hnil : (s'.wakeList c).length = 0 := by simp [hwake]
  simp only [State.work]
  omega

theorem Move.work_lt (hm : Move M s l s') (hl : l.continues = true) :
    s'.work < s.work + l.gain := by
  cases hm with
  | quiet c pc hquiet => exact work_lt_of_rank rfl rfl (hquiet.rank_lt hl)
  | signal c hpc | sleep c hpc | countIowait c hpc | switch c _ hpc | finish c hpc | put c hpc
  | wakeQueued c hpc | setWaking c hpc | setCpu c _ hpc | activate c hpc | activatePending c hpc
  | moveIn c hpc | borne c hpc =>
      exact work_lt_of_rank rfl rfl (Nat.lt_add_right _ (by simp [hpc, Pc.rank, WakeStage.rank]))
  | push c migrated hpc hstage =>
      refine work_lt_of_push rfl rfl ?_
      rcases hstage with ⟨rfl, -⟩ | rfl <;> simp [hpc, Pc.rank, WakeStage.rank]
  | takeList c hpc hlist => exact work_lt_of_takeList hpc hlist rfl rfl
  -- the moves with which a CPU begins something
  | setState _ _ _ _ _ _ hl' | setIowait _ _ _ hl' | setFrozen _ _ _ hl' | wake _ _ _ _ _ hl'
  | moveOut _ _ _ _ _ _ _ hl' | bear _ _ _ _ _ hl' => simp [hl] at hl'

theorem Inv.step_work_lt (h : Inv M s) (hl : l.continues = true) (hen : enabled M s l = true) :
    (Wakeup.step M s l).work < s.work + l.gain := by
  obtain ⟨s', hs'⟩ := Option.isSome_iff_exists.mp hen
  have hstep : Wakeup.step M s l = s' := by rw [Wakeup.step, hs']; rfl
  rw [hstep]
  exact (h.move hs').work_lt hl

omit [DecidableEq P] [DecidableEq C] [Fintype C] in
theorem Inv.not_waking_of_quiescent (h : Inv M s) (hq : s.Quiescent) (p : P) :
    s.state p ≠ taskWaking := by
  have hrole : ∀ c, s.role c = {} := fun c ↦ by rw [State.role, (hq c).1]; rfl
  intro hwak
  rcases (h.task p).carried hwak with ⟨c, hc⟩ | hc | hc
  · simp [hrole] at hc
  · simp [(hq _).2] at hc
  · simp [hrole] at hc

omit [DecidableEq P] [DecidableEq C] [Fintype C] in
theorem sum_gain (ms : List (Label P C)) :
    (ms.map Label.gain).sum = 2 * ms.countP Label.balances := by
  induction ms with
  | nil => rfl
  | cons l ms ih =>
      cases hl : l.balances <;> simp [Label.gain, hl, ih, Nat.mul_add, Nat.add_comm]

/-- From every state of every run the CPUs that are inside the scheduler, taken in any
order, get out of it: the number of their steps is bounded by what is left to do, and by
two more for every balancing pass. They stop only when all of them are out, the wake
lists are empty, and no task is left in `TASK_WAKING`. -/
theorem every_call_returns (boot : C) (ls : List (Label P C)) :
    AllStates (step M) (fun s ↦ ∀ ms : List (Label P C),
      Along (step M) (fun t l ↦ l.continues = true ∧ enabled M t l = true) s ms →
        ms.length ≤ s.work + 2 * ms.countP Label.balances ∧
        (¬(run (step M) s ms).CanContinue M → (run (step M) s ms).Quiescent ∧
          ∀ p, (run (step M) s ms).state p ≠ taskWaking)) (State.init M boot) ls := by
  refine allStates_of_inv (fun s h ms hms ↦ ⟨?_, fun hstuck ↦ ?_⟩) boot ls
  · have hlen := length_add_le_of_decreasing (P := Inv M) (μ := State.work)
      (fun t l ht _ ↦ ht.step l) (fun t l ht hl ↦ ht.step_work_lt hl.1 hl.2) h hms
    rw [sum_gain] at hlen
    omega
  · have hend : Inv M (run (step M) s ms) := run_of_along (fun t l ht _ ↦ ht.step l) h hms
    have hq : (run (step M) s ms).Quiescent := by
      by_contra hbusy
      exact hstuck (hend.canContinue hbusy)
    exact ⟨hq, hend.not_waking_of_quiescent hq⟩

end NcuKernel.Wakeup
