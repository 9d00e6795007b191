import NcuKernel.Wakeup.Safety

/-!
# The last switch away from a task

A task ends in `do_task_dead`. Whoever switches away from it drops the last reference,
after `p->on_cpu` has been cleared. The outline already knows what is true of a dead
task at that point; what is shown here is that the reference is dropped once for each
dead task, and that nothing ever touches the task again.
-/

namespace NcuKernel.Wakeup

open Function Runs

variable {P C : Type*} {M : Machine P C} {s s' : State P C} {l : Label P C} {c d : C} {p q : P}
  {pc : Pc P C}

/-- What is known of the references to `p`. -/
structure ReapInv (s : State P C) (p : P) : Prop where
  le_one : s.put p ≤ 1
  gone : s.put p = 1 → s.state p = taskDead ∧ s.onRq p = .no ∧ s.onCpu p = false
  unique : ∀ c d, s.pc c = .schedPut p true → s.pc d = .schedPut p true → c = d
  pending : ∀ c, s.pc c = .schedPut p true → s.put p = 0
  dropped : s.state p = taskDead → s.onCpu p = false →
    s.put p = 1 ∨ ∃ c, s.pc c = .schedPut p true

theorem Inv.put_ok (h : Inv M s) (hpc : s.pc c = .schedPut p true) :
    s.onCpu p = false ∧ s.onRq p = .no ∧ s.state p = taskDead :=
  h.claims c p .put (by simp [State.mentions, hpc, Pc.mentions])

/-- A dead task that owns no CPU is on no run queue. -/
theorem ReapInv.off (hr : ReapInv s p) (h : Inv M s) (hdead : s.state p = taskDead)
    (hfree : s.onCpu p = false) : s.onRq p = .no := by
  rcases hr.dropped hdead hfree with hput | ⟨c, hc⟩
  · exact (hr.gone hput).2.1
  · exact (h.put_ok hc).2.1

/-- Nothing is known of a task that is alive or runs. -/
theorem ReapInv.of_not (hput : s.put p = 0) (hpc : ∀ c, s.pc c ≠ .schedPut p true)
    (halive : s.state p = taskDead → s.onCpu p = true) : ReapInv s p := by
  refine ⟨by omega, fun h ↦ by omega, fun c _ hc ↦ absurd hc (hpc c), fun _ _ ↦ hput,
    fun hdead hfree ↦ ?_⟩
  rw [halive hdead] at hfree
  simp at hfree

/-- The converse, as long as the outline holds. -/
theorem ReapInv.not_reaped (hr : ReapInv s p) (h : Inv M s)
    (halive : s.state p ≠ taskDead ∨ s.onCpu p = true ∨ s.onRq p ≠ .no) :
    s.put p = 0 ∧ ∀ c, s.pc c ≠ .schedPut p true := by
  refine ⟨?_, fun c hc ↦ ?_⟩
  · have hle := hr.le_one
    by_contra hne
    obtain ⟨hdead, hno, hfree⟩ := hr.gone (by omega)
    simp_all
  · obtain ⟨hfree, hno, hdead⟩ := h.put_ok hc
    simp_all

variable [DecidableEq C]

theorem schedPut_iff_of_update (hpc : s'.pc = update s.pc c pc) (hpre : s.pc c ≠ .schedPut p true)
    (hpost : pc ≠ .schedPut p true) (d : C) :
    s'.pc d = .schedPut p true ↔ s.pc d = .schedPut p true := by
  by_cases hdc : d = c
  · subst hdc
    simp [hpc, hpre, hpost]
  · simp [hpc, hdc]

/-- A move that neither begins nor ends the release of `p`, and does not touch it. -/
theorem ReapInv.frame (hr : ReapInv s p) (hpc : s'.pc = update s.pc c pc)
    (hpre : s.pc c ≠ .schedPut p true) (hpost : pc ≠ .schedPut p true)
    (hput : s'.put p = s.put p) (hview : s'.view p = s.view p) : ReapInv s' p := by
  have hiff := schedPut_iff_of_update hpc hpre hpost
  have hstate : s'.state p = s.state p := congrArg View.state hview
  have hrq : s'.onRq p = s.onRq p := congrArg View.onRq hview
  have hon : s'.onCpu p = s.onCpu p := congrArg View.onCpu hview
  constructor <;> simp only [hiff, hput, hstate, hrq, hon]
  exacts [hr.le_one, hr.gone, hr.unique, hr.pending, hr.dropped]

/-- A move that touches a task which has not been released, or does not touch it at all. -/
theorem ReapInv.touch (hr : ReapInv s p) (h : Inv M s) (hpc : s'.pc = update s.pc c pc)
    (hpre : s.pc c ≠ .schedPut p true) (hpost : pc ≠ .schedPut p true) (hput : s'.put = s.put)
    (q : P) (hsame : p ≠ q → s'.view p = s.view p)
    (hbefore : s.state q ≠ taskDead ∨ s.onCpu q = true ∨ s.onRq q ≠ .no)
    (hafter : s'.state q = taskDead → s'.onCpu q = true) : ReapInv s' p := by
  by_cases hpq : p = q
  · subst hpq
    obtain ⟨hzero, hnot⟩ := hr.not_reaped h hbefore
    have hiff := schedPut_iff_of_update hpc hpre hpost
    exact .of_not (by rw [hput, hzero]) (fun d hd ↦ hnot d ((hiff d).mp hd)) hafter
  · exact hr.frame hpc hpre hpost (by rw [hput]) (hsame hpq)

/-- `finish_task` begins the release of a task that it found dead. -/
theorem ReapInv.finish (hr : ReapInv s p) (h : Inv M s) {prev : P} {dead : Bool}
    (hpc : s.pc c = .schedFinish prev dead) (hpc' : s'.pc = update s.pc c (.schedPut prev dead))
    (hput : s'.put = s.put) (hsame : p ≠ prev → s'.view p = s.view p)
    (hstate : s'.state = s.state) : ReapInv s' p := by
  obtain ⟨hon, -, -, -, hread⟩ := h.claims c prev (.prevRead dead)
    (by simp [State.mentions, hpc, Pc.mentions])
  by_cases hpq : p = prev
  · subst hpq
    obtain ⟨hzero, hnot⟩ := hr.not_reaped h (.inr (.inl hon))
    have hzero' : s'.put p = 0 := by rw [hput, hzero]
    have honly : ∀ d, s'.pc d = .schedPut p true → d = c := fun d hd ↦ by
      by_contra hdc
      exact hnot d (by simpa [hpc', hdc] using hd)
    cases dead with
    | false =>
        refine .of_not hzero' (fun d hd ↦ ?_) fun hd ↦ ?_
        · obtain rfl := honly d hd
          simp [hpc'] at hd
        · rw [hstate] at hd
          exact absurd (hread.mpr hd) (by simp)
    | true =>
        exact ⟨by omega, fun hone ↦ by omega, fun d e hd he ↦ (honly d hd).trans (honly e he).symm,
          fun _ _ ↦ hzero', fun _ _ ↦ .inr ⟨c, by simp [hpc']⟩⟩
  · exact hr.frame hpc' (by simp [hpc]) (by simp [Ne.symm hpq]) (by rw [hput]) (hsame hpq)

/-- `put_task_struct_rcu_user` ends it. -/
theorem ReapInv.put (hr : ReapInv s p) (h : Inv M s) {prev : P} {dead : Bool}
    (hpc : s.pc c = .schedPut prev dead) (hpc' : s'.pc = update s.pc c .task)
    (hput : ∀ r, r ≠ prev → s'.put r = s.put r)
    (hself : s'.put prev = s.put prev + if dead then 1 else 0) (hview : s'.view = s.view) :
    ReapInv s' p := by
  by_cases hpq : p = prev
  · subst hpq
    cases dead with
    | false =>
        exact hr.frame hpc' (by simp [hpc]) (by simp) (by simpa using hself) (by rw [hview])
    | true =>
        obtain ⟨hfree, hno, hdead⟩ := h.put_ok hpc
        have hone : s'.put p = 1 := by rw [hself, hr.pending c hpc]; rfl
        have hnone : ∀ d, s'.pc d ≠ .schedPut p true := fun d hd ↦ by
          by_cases hdc : d = c
          · simp [hpc', hdc] at hd
          · exact hdc (hr.unique d c (by simpa [hpc', hdc] using hd) hpc)
        refine ⟨by omega, fun _ ↦ ?_, fun d _ hd ↦ absurd hd (hnone d),
          fun d hd ↦ absurd hd (hnone d), fun _ _ ↦ .inl hone⟩
        exact ⟨(congrArg View.state (congrFun hview p)).trans hdead,
          (congrArg View.onRq (congrFun hview p)).trans hno,
          (congrArg View.onCpu (congrFun hview p)).trans hfree⟩
  · exact hr.frame hpc' (by simp [hpc, Ne.symm hpq]) (by simp) (hput p hpq) (by rw [hview])

variable [DecidableEq P]

theorem ReapInv.of_move (hi : Inv M s) (hr : ∀ p, ReapInv s p) (hm : Move M s l s') (p : P) :
    ReapInv s' p := by
  have h := hr p
  cases hm with
  | quiet c pc hquiet =>
      refine h.frame rfl ?_ ?_ rfl rfl
      · cases hquiet <;> simp_all
      · cases hquiet <;> simp
  | setState c x hpc halive =>
      obtain ⟨hon, -, -⟩ := hi.curr_ok_of_task hpc
      refine h.touch hi (update_eq_self_iff.mpr hpc.symm).symm (by simp [hpc]) (by simp) rfl
        (s.curr c) (fun hp ↦ ?_) (.inl halive) fun _ ↦ hon
      simp [State.view, State.setTaskState, hp]
  | setIowait c b hpc => exact ⟨h.le_one, h.gone, h.unique, h.pending, h.dropped⟩
  | setFrozen c b hpc => exact ⟨h.le_one, h.gone, h.unique, h.pending, h.dropped⟩
  | signal c hpc =>
      obtain ⟨hon, -⟩ := hi.read_ok hpc
      refine h.touch hi rfl (by simp [hpc]) (by simp) rfl (s.curr c) (fun hp ↦ ?_)
        (.inr (.inl hon)) fun _ ↦ hon
      simp [State.view, State.goto, State.setTaskState, hp]
  | @sleep c prevState hpc =>
      obtain ⟨hon, -⟩ := hi.read_ok hpc
      have hpc' : (s.sleep c prevState).pc = update s.pc c .schedDeactivated := rfl
      refine h.touch hi hpc' (by simp [hpc]) (by simp) rfl (s.curr c) (fun hp ↦ ?_)
        (.inr (.inl hon)) fun _ ↦ hon
      simp [State.view, State.sleep, State.goto, State.deactivateTask, State.addUninterruptible, hp]
  | countIowait c hpc => exact h.frame rfl (by simp [hpc]) (by simp) rfl rfl
  | switch c next hpc hne hnext =>
      have hrq : s.onRq next = .queued := by
        rcases hnext with hmem | rfl
        · exact (((hi.task next).mem_queue c).mp hmem).1
        · exact ((hi.task _).idle c ((M.idleOf_eq_some _ _).mpr rfl)).2.1
      refine h.touch hi rfl (by simp [hpc]) (by simp) rfl next (fun hp ↦ ?_)
        (.inr (.inr (by simp [hrq]))) fun _ ↦ by simp
      simp [State.view, hp]
  | finish c hpc =>
      refine h.finish hi hpc rfl rfl (fun hp ↦ ?_) rfl
      simp [State.view, State.goto, hp]
  | @put c prev dead hpc =>
      refine h.put hi hpc rfl (fun r hr ↦ ?_) ?_ rfl
      · simp [State.goto, hr]
      · simp [State.goto]
  | wake c q hpc => exact h.frame rfl (by simp [hpc]) (by simp) rfl rfl
  | @wakeQueued c q hpc hfree hrq =>
      refine h.touch hi rfl (by simp [hpc]) (by simp) rfl q (fun hp ↦ ?_)
        (.inr (.inr (by simp [hrq]))) fun hd ↦ ?_
      · simp [State.view, State.goto, State.setTaskState, State.setPi, hp]
      · simp [State.goto, State.setTaskState, State.setPi] at hd
  | @setWaking c q hpc =>
      refine h.touch hi rfl (by simp [hpc]) (by simp) rfl q (fun hp ↦ ?_)
        (.inl (hi.stage_ok hpc).2.1) fun hd ↦ ?_
      · simp [State.view, State.goto, State.setTaskState, hp]
      · simp [State.goto, State.setTaskState] at hd
  | @setCpu c q dest hpc =>
      have hwak : s.state q = taskWaking := (hi.stage_ok hpc).2.1
      refine h.touch hi rfl (by simp [hpc]) (by simp) rfl q (fun hp ↦ ?_) (.inl (by simp [hwak]))
        fun hd ↦ ?_
      · simp [State.view, State.goto, State.setTaskCpu, State.addIowait, hp]
      · exact absurd (hwak.symm.trans hd) (by simp)
  | push c migrated hpc => exact h.frame rfl (by simp [hpc]) (by simp) rfl rfl
  | @activate c q migrated hpc =>
      have hwak : s.state q = taskWaking := (hi.stage_ok hpc).2.1
      refine h.touch hi rfl (by simp [hpc]) (by simp) rfl q (fun hp ↦ ?_) (.inl (by simp [hwak]))
        fun hd ↦ ?_
      · simp [State.view, State.goto, State.setPi, State.ttwuDoActivate, State.activateTask,
          State.setTaskState, State.addIowait, State.addUninterruptible, hp]
      · simp [State.goto, State.setPi, State.ttwuDoActivate, State.setTaskState] at hd
  | takeList c hpc => exact h.frame rfl (by simp [hpc]) (by simp) rfl rfl
  | @activatePending c q rest hpc =>
      obtain ⟨-, hwak, -⟩ := hi.claims c q .pending (by simp [State.mentions, hpc, Pc.mentions])
      simp only [State.view] at hwak
      refine h.touch hi rfl (by simp [hpc]) (by simp) rfl q (fun hp ↦ ?_) (.inl (by simp [hwak]))
        fun hd ↦ ?_
      · simp [State.view, State.goto, State.ttwuDoActivate, State.activateTask,
          State.setTaskState, State.addIowait, State.addUninterruptible, hp]
      · simp [State.goto, State.ttwuDoActivate, State.setTaskState] at hd
  | @moveOut c q src dest piLocked hpc hmem hfree =>
      have hrq : s.onRq q = .queued := (((hi.task q).mem_queue src).mp hmem).1
      refine h.touch hi rfl (by simp [hpc]) (by simp) rfl q (fun hp ↦ ?_)
        (.inr (.inr (by simp [hrq]))) fun hd ↦ ?_
      · simp [State.view, State.moveOut, State.goto, State.deactivateTask, State.setTaskCpu,
          State.setPi, hp]
      · exact absurd (hrq.symm.trans ((hr q).off hi hd hfree)) (by simp)
  | @moveIn c q dest piLocked hpc =>
      obtain ⟨hmig, -, hfree⟩ := hi.claims c q (.moved dest)
        (by simp [State.mentions, hpc, Pc.mentions])
      simp only [State.view] at hmig hfree
      refine h.touch hi rfl (by simp [hpc]) (by simp) rfl q (fun hp ↦ ?_)
        (.inr (.inr (by simp [hmig]))) fun hd ↦ ?_
      · simp [State.view, State.goto, State.activateTask, State.setPi, hp]
      · exact absurd (hmig.symm.trans ((hr q).off hi hd hfree)) (by simp)
  | @bear c q dest hpc hpi hnew =>
      refine h.touch hi rfl (by simp [hpc]) (by simp) rfl q (fun hp ↦ ?_) (.inl (by simp [hnew]))
        fun hd ↦ ?_
      · simp [State.view, State.goto, State.setTaskState, State.setTaskCpu, State.setPi, hp]
      · simp [State.goto, State.setTaskState, State.setTaskCpu, State.setPi] at hd
  | @borne c q hpc =>
      obtain ⟨-, hrun, -⟩ := hi.claims c q .born (by simp [State.mentions, hpc, Pc.mentions])
      simp only [State.view] at hrun
      refine h.touch hi rfl (by simp [hpc]) (by simp) rfl q (fun hp ↦ ?_) (.inl (by simp [hrun]))
        fun hd ↦ absurd (hrun.symm.trans hd) (by simp)
      simp [State.view, State.goto, State.activateTask, State.setPi, hp]

/-- Nobody gives a dead task another state. -/
theorem Inv.dead_of_move (hi : Inv M s) (hm : Move M s l s') (hdead : s.state p = taskDead) :
    s'.state p = taskDead := by
  have hkeep : ∀ q x, s.state q ≠ taskDead → update s.state q x p = taskDead := fun q x hq ↦ by
    have hpq : p ≠ q := fun hpq ↦ hq (hpq ▸ hdead)
    simpa [hpq] using hdead
  cases hm with
  | setState c x hpc halive => exact hkeep _ _ halive
  | signal c hpc hne => exact hkeep _ _ fun hd ↦ hne ((hi.read_ok hpc).2.2.2.1.symm.trans hd)
  | wakeQueued c hpc => exact hkeep _ _ (hi.stage_ok hpc).1
  | setWaking c hpc => exact hkeep _ _ (hi.stage_ok hpc).2.1
  | activate c hpc =>
      exact hkeep _ _ fun hd ↦ absurd ((hi.stage_ok hpc).2.1.symm.trans hd) (by simp)
  | @activatePending c q rest hpc =>
      obtain ⟨-, hwak, -⟩ := hi.claims c q .pending (by simp [State.mentions, hpc, Pc.mentions])
      exact hkeep _ _ fun hd ↦ absurd (hwak.symm.trans hd) (by simp)
  | bear c dest hpc hpi hnew => exact hkeep _ _ (by simp [hnew])
  | _ => exact hdead

omit [DecidableEq C] [DecidableEq P] in
theorem reapInv_init (boot : C) (p : P) : ReapInv (State.init M boot) p :=
  .of_not rfl (fun _ ↦ by simp [State.init]) fun hd ↦ by
    cases hidle : M.idleOf p <;> simp_all [State.init]

/-- In every state of every run each dead task has had its reference dropped once, unless
it still owns a CPU or the CPU that has left it is about to drop it; a task whose
reference is gone is on no queue and no list, no CPU uses it, and it stays dead. -/
theorem dead_released_once (boot : C) (ls : List (Label P C)) :
    AllStates (step M) (fun s ↦ ∀ p, s.put p ≤ 1 ∧
      (s.put p = 1 ↔
        s.state p = taskDead ∧ s.onCpu p = false ∧ ∀ c, s.pc c ≠ .schedPut p true) ∧
      (∀ c d, s.pc c = .schedPut p true → s.pc d = .schedPut p true → c = d) ∧
      (s.put p = 1 → s.onRq p = .no ∧ ∀ c, ¬s.Uses c p ∧ p ∉ s.queue c ∧ p ∉ s.wakeList c) ∧
      (s.state p = taskDead → ∀ l, (step M s l).state p = taskDead)) (State.init M boot) ls := by
  have hall := allStates_iff_take.mp
    (allStates_of_move (M := M) (reapInv_init boot) (fun _ _ _ ↦ ReapInv.of_move) ls)
  refine allStates_iff_take.mpr fun k p ↦ ?_
  obtain ⟨h, hr⟩ := hall k
  set s := run (step M) (State.init M boot) (ls.take k)
  refine ⟨(hr p).le_one, ⟨fun hput ↦ ?_, ?_⟩, (hr p).unique, fun hput ↦ ?_, fun hdead l ↦ ?_⟩
  · obtain ⟨hdead, -, hfree⟩ := (hr p).gone hput
    refine ⟨hdead, hfree, fun c hc ↦ ?_⟩
    have hzero := (hr p).pending c hc
    omega
  · rintro ⟨hdead, hfree, hnone⟩
    rcases (hr p).dropped hdead hfree with hput | ⟨c, hc⟩
    · exact hput
    · exact absurd hc (hnone c)
  · obtain ⟨hdead, hno, hfree⟩ := (hr p).gone hput
    refine ⟨hno, fun c ↦ ⟨fun hu ↦ ?_, fun hq ↦ ?_, fun hw ↦ ?_⟩⟩
    · exact absurd ((h.uses_owned hu).1.symm.trans hfree) (by simp)
    · exact absurd ((((h.task p).mem_queue c).mp hq).1.symm.trans hno) (by simp)
    · exact absurd (((h.task p).wakeList c hw).2.1.symm.trans hdead) (by simp)
  · unfold step
    cases hs : next M s l with
    | none => exact hdead
    | some s' => exact h.dead_of_move (h.move hs) hdead

end NcuKernel.Wakeup
