import NcuKernel.Wakeup.Waiting

/-!
# The atomic scheduler

Seen from a task, the protocol is a scheduler whose three actions are atomic: a new
task becomes runnable, a blocked task is woken, a CPU switches from one task to
another. `schedule`, `try_to_wake_up` and a migration take many steps, in which CPUs
interleave; each of these steps is one of the three actions or is not seen at all.
-/

namespace NcuKernel.Wakeup

open Function Runs

variable {P C : Type*}

inductive Phase (C : Type*) where
  | unborn
  | runnable
  | running (c : C)
  | blocked
  | dead
  deriving DecidableEq, Repr

namespace Atomic

variable [DecidableEq P]

/-- `fate` is what becomes of the task that `c` leaves; an idle task is never blocked. -/
inductive Step (idle : C → P) (a : P → Phase C) : (P → Phase C) → Prop
  | spawn (p : P) (hp : a p = .unborn) : Step idle a (update a p .runnable)
  | wake (p : P) (hp : a p = .blocked) : Step idle a (update a p .runnable)
  | switch (c : C) (prev next : P) (fate : Phase C) (hprev : a prev = .running c)
      (hnext : a next = .runnable) (hfate : fate = .runnable ∨ fate = .blocked ∨ fate = .dead)
      (hidle : prev = idle c → fate = .runnable) :
      Step idle a (update (update a prev fate) next (.running c))

/-- Every CPU runs exactly one task. -/
def Busy (a : P → Phase C) : Prop := ∀ c, ∃! p, a p = .running c

theorem Busy.update {a : P → Phase C} (h : Busy a) {p : P} (hp : ∀ c, a p ≠ .running c)
    {x : Phase C} (hx : ∀ c, x ≠ .running c) : Busy (update a p x) := by
  intro c
  obtain ⟨q, hq, huniq⟩ := h c
  have hqp : q ≠ p := fun hqp ↦ hp c (hqp ▸ hq)
  refine ⟨q, by simpa [hqp] using hq, fun r hr ↦ ?_⟩
  by_cases hrp : r = p
  · subst hrp
    exact absurd (by simpa using hr) (hx c)
  · exact huniq r (by simpa [hrp] using hr)

theorem Busy.step {idle : C → P} {a a' : P → Phase C} (h : Busy a) (hs : Step idle a a') :
    Busy a' := by
  cases hs with
  | spawn p hp => exact h.update (by simp [hp]) (by simp)
  | wake p hp => exact h.update (by simp [hp]) (by simp)
  | switch c prev next fate hprev hnext hfate =>
      have hne : prev ≠ next := by
        rintro rfl
        simp [hprev] at hnext
      have hfate' : ∀ d, fate ≠ .running d := by rcases hfate with rfl | rfl | rfl <;> simp
      intro d
      obtain ⟨q, hq, huniq⟩ := h d
      by_cases hd : d = c
      · -- `next` takes the place of `prev`
        subst hd
        refine ⟨next, by simp, fun r hr ↦ ?_⟩
        by_contra hrn
        by_cases hrp : r = prev
        · subst hrp
          exact hfate' d (by simpa [hne] using hr)
        · have hr' : a r = .running d := by simpa [hrn, hrp] using hr
          exact hrp ((huniq r hr').trans (huniq prev hprev).symm)
      · have hqn : q ≠ next := by
          rintro rfl
          simp [hq] at hnext
        have hqp : q ≠ prev := by
          rintro rfl
          exact hd (by simpa [hq] using hprev)
        refine ⟨q, by simpa [hqn, hqp] using hq, fun r hr ↦ ?_⟩
        by_cases hrn : r = next
        · subst hrn
          exact absurd (by simpa using hr) (Ne.symm hd)
        · by_cases hrp : r = prev
          · subst hrp
            exact absurd (by simpa [hrn] using hr) (hfate' d)
          · exact huniq r (by simpa [hrn, hrp] using hr)

end Atomic

variable [DecidableEq P] {M : Machine P C} {s s' : State P C} {l : Label P C} {c d : C} {p q : P}

/-- What the atomic scheduler sees of a task. One that `wake_up_new_task` has not queued
yet is still unborn, and one that is being woken is still blocked. -/
def State.phase (s : State P C) (p : P) : Phase C :=
  if s.state p = taskNew then .unborn
  else if s.curr (s.cpu p) = p then .running (s.cpu p)
  else match s.onRq p with
    | .no =>
        if s.state p = taskDead then .dead
        else if s.state p = taskRunning then .unborn
        else .blocked
    | .queued | .migrating => .runnable

theorem phase_congr (hstate : s'.state p = s.state p) (hrq : s'.onRq p = s.onRq p)
    (hcpu : s'.cpu p = s.cpu p) (hcurr : s'.curr (s.cpu p) = p ↔ s.curr (s.cpu p) = p) :
    s'.phase p = s.phase p := by
  simp only [State.phase, hstate, hrq, hcpu, hcurr]

theorem phase_congr_view (hview : s'.view p = s.view p) (hcurr : s'.curr = s.curr) :
    s'.phase p = s.phase p :=
  phase_congr (congrArg View.state hview) (congrArg View.onRq hview) (congrArg View.cpu hview)
    (by rw [hcurr])

theorem phase_running (hnew : s.state p ≠ taskNew) (hc : s.curr (s.cpu p) = p) :
    s.phase p = .running (s.cpu p) := by
  simp [State.phase, hnew, hc]

theorem phase_runnable (hnew : s.state p ≠ taskNew) (hc : s.curr (s.cpu p) ≠ p)
    (hrq : s.onRq p ≠ .no) : s.phase p = .runnable := by
  cases h : s.onRq p <;> simp_all [State.phase]

theorem phase_blocked (hc : s.curr (s.cpu p) ≠ p) (hno : s.onRq p = .no)
    (hwak : s.state p = taskWaking) : s.phase p = .blocked := by
  simp [State.phase, hc, hno, hwak]

theorem phase_unborn (hc : s.curr (s.cpu p) ≠ p) (hno : s.onRq p = .no)
    (hrun : s.state p = taskRunning) : s.phase p = .unborn := by
  simp [State.phase, hc, hno, hrun]

/-- A move that touches one task and lets the atomic scheduler see nothing of it. -/
theorem phase_eq_of_touch (hcurr : s'.curr = s.curr) (q : P)
    (hsame : ∀ p, p ≠ q → s'.view p = s.view p) (hq : s'.phase q = s.phase q) :
    s'.phase = s.phase := by
  funext p
  by_cases hpq : p = q
  · exact hpq ▸ hq
  · exact phase_congr_view (hsame p hpq) hcurr

theorem phase_eq_update_of_touch {x : Phase C} (hcurr : s'.curr = s.curr) (q : P)
    (hsame : ∀ p, p ≠ q → s'.view p = s.view p) (hq : s'.phase q = x) :
    s'.phase = update s.phase q x := by
  funext p
  by_cases hpq : p = q
  · subst hpq
    simpa using hq
  · rw [update_of_ne hpq]
    exact phase_congr_view (hsame p hpq) hcurr

/-! ## Each move is one atomic action or none -/

variable [DecidableEq C]

omit [DecidableEq C] in
/-- A task that a CPU still runs is seen as running, whatever its state. -/
theorem Inv.phase_curr (h : Inv M s) (hcurr : s'.curr = s.curr) (hcpu : s'.cpu = s.cpu)
    (hnew : s'.state (s.curr c) ≠ taskNew) : s'.phase (s.curr c) = s.phase (s.curr c) := by
  obtain ⟨hon, hc⟩ := h.curr_owned c
  have hnew₀ : s.state (s.curr c) ≠ taskNew := fun hx ↦
    absurd (hon.symm.trans ((h.task _).unborn hx).2) (by simp)
  rw [phase_running hnew₀ (by rw [hc]), phase_running hnew (by rw [hcpu, hcurr, hc]), hcpu]

theorem Inv.phase_of_switch (h : Inv M s) {next : P} (hpc : s.pc c = .schedPick)
    (hne : s.curr c ≠ next) (hnext : next ∈ s.queue c ∨ next = M.idle c)
    (hcurr : s'.curr = update s.curr c next) (hstate : s'.state = s.state)
    (hrq : s'.onRq = s.onRq) (hcpu : s'.cpu = s.cpu) :
    Atomic.Step M.idle s.phase s'.phase := by
  obtain ⟨hon, hc⟩ := h.curr_owned c
  obtain ⟨-, -, -, hdead⟩ := h.claims c (s.curr c) .prev
    (by simp [State.mentions, hpc, Pc.mentions])
  simp only [State.view] at hdead
  obtain ⟨hqueued, hncpu⟩ : s.onRq next = .queued ∧ s.cpu next = c := by
    rcases hnext with hmem | rfl
    · exact ⟨(((h.task next).mem_queue c).mp hmem).1, (((h.task next).mem_queue c).mp hmem).2.1⟩
    · exact ((h.task _).idle c ((M.idleOf_eq_some _ _).mpr rfl)).2
  have hnew : s.state next ≠ taskNew := h.not_new (by simp [hqueued])
  have hnewc : s.state (s.curr c) ≠ taskNew := fun hx ↦
    absurd (hon.symm.trans ((h.task _).unborn hx).2) (by simp)
  have hprev' : s'.curr (s'.cpu (s.curr c)) ≠ s.curr c := by
    rw [hcpu, hc, hcurr, update_self]
    exact Ne.symm hne
  have hphase : s'.phase = update (update s.phase (s.curr c) (s'.phase (s.curr c))) next
      (.running c) := by
    funext p
    by_cases hpn : p = next
    · subst hpn
      rw [update_self, phase_running (by rw [hstate]; exact hnew)
        (by rw [hcpu, hncpu, hcurr, update_self]), hcpu, hncpu]
    · rw [update_of_ne hpn]
      by_cases hpc : p = s.curr c
      · subst hpc
        rw [update_self]
      · -- any other task is the `curr` of its CPU now if it was before
        rw [update_of_ne hpc]
        refine phase_congr (by rw [hstate]) (by rw [hrq]) (by rw [hcpu]) ?_
        rw [hcurr]
        by_cases hd : s.cpu p = c
        · rw [hd, update_self]
          exact iff_of_false (Ne.symm hpn) (Ne.symm hpc)
        · rw [update_of_ne hd]
  rw [hphase]
  refine .switch c (s.curr c) next _ ?_ ?_ ?_ fun hidle ↦ ?_
  · rw [phase_running hnewc (by rw [hc]), hc]
  · exact phase_runnable hnew (by rw [hncpu]; exact hne) (by simp [hqueued])
  · have hnew' : s'.state (s.curr c) ≠ taskNew := by rw [hstate]; exact hnewc
    by_cases hno : s.onRq (s.curr c) = .no
    · have hrun : s.state (s.curr c) ≠ taskRunning := fun hrun ↦ by
        obtain ⟨d, hd⟩ := (h.task _).running hrun hno
        have hfree := (h.claims d _ .born ((mention_of_role _).2.2.1 hd)).2.2
        exact absurd (hon.symm.trans hfree) (by simp)
      by_cases hdd : s.state (s.curr c) = taskDead
      · exact .inr (.inr (by simp [State.phase, hstate, hrq, hno, hprev', hdd]))
      · exact .inr (.inl (by simp [State.phase, hstate, hrq, hno, hprev', hnewc, hrun, hdd]))
    · exact .inl (phase_runnable hnew' hprev' (by rw [hrq]; exact hno))
  · have hq := ((h.task _).idle c ((M.idleOf_eq_some _ _).mpr hidle.symm)).2.1
    exact phase_runnable (by rw [hstate]; exact hnewc) hprev' (by simp [hrq, hq])

omit [DecidableEq C] in
theorem Inv.phase_of_enqueue (h : Inv M s) (hfree : s.onCpu q = false)
    (hphase : s.phase q = .blocked ∨ s.phase q = .unborn) (hcurr : s'.curr = s.curr)
    (hsame : ∀ p, p ≠ q → s'.view p = s.view p) (hrq : s'.onRq q = .queued)
    (hrun : s'.state q = taskRunning) : Atomic.Step M.idle s.phase s'.phase := by
  have hrunnable : s'.phase q = .runnable :=
    phase_runnable (by simp [hrun]) (by rw [hcurr]; exact h.curr_ne hfree _) (by simp [hrq])
  rw [phase_eq_update_of_touch hcurr q hsame hrunnable]
  exact hphase.elim (.wake q) (.spawn q)

theorem Inv.phase_of_move (h : Inv M s) (hm : Move M s l s') :
    s'.phase = s.phase ∨ Atomic.Step M.idle s.phase s'.phase := by
  cases hm with
  | quiet c pc hquiet => exact .inl rfl
  | setState c x hpc halive hidle hx =>
      refine .inl (phase_eq_of_touch rfl (s.curr c) (fun p hp ↦ ?_) (h.phase_curr rfl rfl ?_))
      · simp [State.view, State.setTaskState, hp]
      · rcases hx with hx | ⟨rfl, -⟩
        · simpa [State.setTaskState] using hx.2.2
        · simp [State.setTaskState]
  | setIowait c b hpc => exact .inl rfl
  | setFrozen c b hpc => exact .inl rfl
  | signal c hpc =>
      refine .inl (phase_eq_of_touch rfl (s.curr c) (fun p hp ↦ ?_) (h.phase_curr rfl rfl ?_))
      · simp [State.view, State.goto, State.setTaskState, hp]
      · simp [State.goto, State.setTaskState]
  | @sleep c prevState hpc =>
      have hrq : s.onRq (s.curr c) = .queued := (h.read_ok hpc).2.2.1
      refine .inl (phase_eq_of_touch rfl (s.curr c) (fun p hp ↦ ?_)
        (h.phase_curr rfl rfl (h.not_new (by simp [hrq]))))
      simp [State.view, State.sleep, State.goto, State.deactivateTask, State.addUninterruptible, hp]
  | countIowait c hpc => exact .inl rfl
  | switch c next hpc hne hnext => exact .inr (h.phase_of_switch hpc hne hnext rfl rfl rfl rfl)
  | finish c hpc => exact .inl rfl
  | put c hpc => exact .inl rfl
  | wake c q hpc => exact .inl rfl
  | @wakeQueued c q hpc hfree hrq =>
      have hnew : s.state q ≠ taskNew := h.not_new (by simp [hrq])
      refine .inl (phase_eq_of_touch rfl q (fun p hp ↦ ?_) ?_)
      · simp [State.view, State.goto, State.setTaskState, State.setPi, hp]
      · simp [State.phase, State.goto, State.setTaskState, State.setPi, hrq, hnew]
  | @setWaking c q hpc =>
      obtain ⟨hno, hdead, -, hnew⟩ := h.stage_ok hpc
      have hrun := h.not_running_of_wake hpc hno
      simp only [State.view] at hno hdead hnew
      refine .inl (phase_eq_of_touch rfl q (fun p hp ↦ ?_) ?_)
      · simp [State.view, State.goto, State.setTaskState, hp]
      · simp [State.phase, State.goto, State.setTaskState, hno, hdead, hnew, hrun]
  | @setCpu c q dest hpc =>
      obtain ⟨hno, hwak, hfree⟩ := h.stage_ok hpc
      have hne := h.curr_ne hfree
      simp only [State.view] at hno hwak
      refine .inl (phase_eq_of_touch rfl q (fun p hp ↦ ?_) ?_)
      · simp [State.view, State.goto, State.setTaskCpu, State.addIowait, hp]
      · simp [State.phase, State.goto, State.setTaskCpu, State.addIowait, hno, hwak, hne]
  | push c migrated hpc => exact .inl rfl
  | @activate c q migrated hpc =>
      obtain ⟨hno, hwak, hfree⟩ := h.stage_ok hpc
      refine .inr (h.phase_of_enqueue hfree
        (.inl (phase_blocked (h.curr_ne hfree _) hno hwak)) rfl (fun p hp ↦ ?_) ?_ ?_)
      all_goals simp_all [State.view, State.goto, State.setPi, State.ttwuDoActivate,
        State.activateTask, State.setTaskState, State.addIowait, State.addUninterruptible]
  | takeList c hpc => exact .inl rfl
  | @activatePending c q rest hpc =>
      obtain ⟨hno, hwak, -, hfree⟩ := h.claims c q .pending
        (by simp [State.mentions, hpc, Pc.mentions])
      refine .inr (h.phase_of_enqueue hfree
        (.inl (phase_blocked (h.curr_ne hfree _) hno hwak)) rfl (fun p hp ↦ ?_) ?_ ?_)
      all_goals simp_all [State.view, State.goto, State.ttwuDoActivate,
        State.activateTask, State.setTaskState, State.addIowait, State.addUninterruptible]
  | @moveOut c q src dest piLocked hpc hmem hfree =>
      have hrq : s.onRq q = .queued := (((h.task q).mem_queue src).mp hmem).1
      have hnew : s.state q ≠ taskNew := h.not_new (by simp [hrq])
      have hne := h.curr_ne hfree
      refine .inl (phase_eq_of_touch rfl q (fun p hp ↦ ?_) ?_)
      · simp [State.view, State.moveOut, State.goto, State.deactivateTask, State.setTaskCpu,
          State.setPi, hp]
      · simp [State.phase, State.moveOut, State.goto, State.deactivateTask, State.setTaskCpu,
          State.setPi, hrq, hnew, hne]
  | @moveIn c q dest piLocked hpc =>
      obtain ⟨hmig, -, hfree⟩ := h.claims c q (.moved dest)
        (by simp [State.mentions, hpc, Pc.mentions])
      simp only [State.view] at hmig hfree
      have hnew : s.state q ≠ taskNew := h.not_new (by simp [hmig])
      refine .inl (phase_eq_of_touch rfl q (fun p hp ↦ ?_) ?_)
      · simp [State.view, State.goto, State.activateTask, State.setPi, hp]
      · simp [State.phase, State.goto, State.activateTask, State.setPi, hmig, hnew]
  | @bear c q dest hpc hpi hnew =>
      obtain ⟨hno, hfree⟩ := (h.task q).unborn hnew
      have hne := h.curr_ne hfree
      refine .inl (phase_eq_of_touch rfl q (fun p hp ↦ ?_) ?_)
      · simp [State.view, State.goto, State.setTaskState, State.setTaskCpu, State.setPi, hp]
      · simp [State.phase, State.goto, State.setTaskState, State.setTaskCpu, State.setPi, hno, hnew,
          hne]
  | @borne c q hpc =>
      obtain ⟨hno, hrun, hfree⟩ := h.claims c q .born (by simp [State.mentions, hpc, Pc.mentions])
      simp only [State.view] at hno hrun hfree
      refine .inr (h.phase_of_enqueue hfree
        (.inr (phase_unborn (h.curr_ne hfree _) hno hrun)) rfl (fun p hp ↦ ?_) ?_ hrun)
      all_goals simp_all [State.view, State.goto, State.activateTask, State.setPi]

omit [DecidableEq C] in
theorem busy_init (boot : C) : Atomic.Busy (State.init M boot).phase := by
  have hidle : ∀ c, (State.init M boot).phase (M.idle c) = .running c := fun c ↦ by
    simp [State.phase, State.init, (M.idleOf_eq_some (M.idle c) c).mpr rfl]
  intro c
  refine ⟨M.idle c, hidle c, fun p hp ↦ ?_⟩
  cases hof : M.idleOf p with
  | none => simp [State.phase, State.init, hof] at hp
  | some d =>
      obtain rfl : M.idle d = p := (M.idleOf_eq_some p d).mp hof
      obtain rfl : d = c := by simpa [hidle] using hp
      rfl

/-- Every step of every run is one action of the atomic scheduler or is not seen by it,
and with the atomic scheduler every CPU runs exactly one task at every moment. -/
theorem refines_atomic (boot : C) (ls : List (Label P C)) :
    Along (step M) (fun s l ↦ (step M s l).phase = s.phase ∨
      Atomic.Step M.idle s.phase (step M s l).phase) (State.init M boot) ls ∧
    AllStates (step M) (fun s ↦ Atomic.Busy s.phase) (State.init M boot) ls := by
  have hstep : ∀ s, Inv M s → ∀ l, (step M s l).phase = s.phase ∨
      Atomic.Step M.idle s.phase (step M s l).phase := fun s h l ↦ by
    unfold step
    cases hs : next M s l with
    | none => exact .inl rfl
    | some s' => exact h.phase_of_move (h.move hs)
  have hall : Along (step M) (fun _ _ ↦ True) (State.init M boot) ls :=
    along_of_forall fun _ _ ↦ trivial
  refine ⟨along_of_invariant (fun s l h _ ↦ h.step l) (fun s l h _ ↦ hstep s h l) (inv_init boot)
    hall, ?_⟩
  have hbusy : AllStates (step M) (fun s ↦ Inv M s ∧ Atomic.Busy s.phase) (State.init M boot) ls :=
    allStates_of_move (busy_init boot) (fun s s' l h hb hm ↦ by
      rcases h.phase_of_move hm with heq | hs
      · exact heq ▸ hb
      · exact hb.step hs) ls
  exact hbusy.imp fun s h ↦ h.2

end NcuKernel.Wakeup
