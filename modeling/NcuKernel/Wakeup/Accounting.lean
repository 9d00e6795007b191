import NcuKernel.Library.Counting
import NcuKernel.Wakeup.Safety

/-!
# Load and I/O wait accounting

`rq->nr_uninterruptible` is incremented on the CPU a task sleeps on and decremented
on the CPU it wakes up on, so one counter alone means nothing; the sum over all CPUs
is what the load average reads. `rq->nr_iowait` is decremented on the CPU that
incremented it, whichever way the wakeup goes.
-/

namespace NcuKernel.Wakeup

open Function Runs Counting

variable {P C : Type*} {M : Machine P C} {s s' : State P C} {l : Label P C} {c d : C} {p q : P}
  {pc : Pc P C}

/-- The wakeup has moved the task to another CPU, and taken it off the count of the old one. -/
def Pc.migrated : Pc P C → Bool
  | .wake _ (.queue migrated) | .wake _ (.activate migrated) => migrated
  | _ => false

/-- A waker that has chosen a CPU found its task off the old one. -/
theorem Inv.migrated_of_onCpu (h : Inv M s) (hpi : s.piLock q = some d) (hon : s.onCpu q = true) :
    (s.pc d).migrated = false := by
  have hrole := ((h.task q).pi d).mpr hpi
  cases hpc : s.pc d with
  | wake p stage =>
      obtain rfl : p = q := Option.some.inj ((role_pi_of_wake hpc).symm.trans hrole)
      cases stage with
      | queue migrated | activate migrated =>
          exact absurd ((h.stage_ok hpc).2.2.symm.trans hon) (by simp)
      | _ => rfl
  | _ => rfl

theorem Quiet.migrated (hq : Quiet s l c pc) :
    pc.migrated = (s.pc c).migrated ∧ s.pc c ≠ .schedDeactivated ∧ pc ≠ .schedDeactivated ∧
      ∀ p, pc ≠ .born p := by
  cases hq with
  | offRq hpc hstage | released hpc hstage =>
      rcases hstage with rfl | rfl <;> simp [hpc, Pc.migrated]
  | _ => simp_all [Pc.migrated]

variable [DecidableEq C]

theorem born_of_update (hpc : s'.pc = update s.pc c pc) (hborn : ∀ p, pc ≠ .born p)
    (hd : s'.pc d = .born p) : s.pc d = .born p := by
  rw [hpc] at hd
  by_cases hdc : d = c
  · subst hdc
    exact absurd (by simpa using hd) (hborn p)
  · simpa [hdc] using hd

variable [DecidableEq P] [Fintype P]

/-! ## `nr_uninterruptible` -/

section Load

variable [Fintype C]

/-- Off the run queues, and counted when it went to sleep. -/
def State.sleeper (s : State P C) (p : P) : Bool := s.onRq p = .no && s.contributes p

structure LoadInv (s : State P C) : Prop where
  sum : ∑ c, s.nrUninterruptible c = ∑ p, one (s.sleeper p)
  fresh : ∀ p, s.state p = taskNew → s.contributes p = false
  born : ∀ c p, s.pc c = .born p → s.contributes p = false
  /-- What was counted is what the state still says. -/
  asleep : ∀ p, s.onRq p = .no → s.state p ≠ taskNew → s.state p ≠ taskRunning →
    s.state p ≠ taskWaking → s.contributes p = contributesToLoad (s.state p) (s.frozen p)

omit [DecidableEq P] in
/-- A move that changes no task and no counter of this kind. -/
theorem LoadInv.congr (h : LoadInv s) (hpc : s'.pc = update s.pc c pc) (hborn : ∀ p, pc ≠ .born p)
    (hun : s'.nrUninterruptible = s.nrUninterruptible) (hrq : s'.onRq = s.onRq)
    (hcon : s'.contributes = s.contributes) (hstate : s'.state = s.state)
    (hfrozen : s'.frozen = s.frozen) : LoadInv s' := by
  refine ⟨?_, ?_, fun d p hd ↦ ?_, ?_⟩
  · simp only [State.sleeper, hun, hrq, hcon]
    exact h.sum
  · simp only [hcon, hstate]
    exact h.fresh
  · rw [hcon]
    exact h.born d p (born_of_update hpc hborn hd)
  · simp only [hrq, hcon, hstate, hfrozen]
    exact h.asleep

omit [DecidableEq C] in
/-- A move that changes one task. -/
theorem LoadInv.touch (h : LoadInv s) (q : P)
    (hsame : ∀ p, p ≠ q → s'.state p = s.state p ∧ s'.onRq p = s.onRq p ∧
      s'.contributes p = s.contributes p ∧ s'.frozen p = s.frozen p)
    (hsum : ∑ c, s'.nrUninterruptible c + one (s.sleeper q) =
      ∑ c, s.nrUninterruptible c + one (s'.sleeper q))
    (hborn : ∀ d p, s'.pc d = .born p → s'.contributes p = false)
    (hnew : s'.state q ≠ taskNew)
    (hasleep : s'.onRq q = .no → s'.state q ≠ taskRunning → s'.state q ≠ taskWaking →
      s'.contributes q = contributesToLoad (s'.state q) (s'.frozen q)) : LoadInv s' := by
  have hsleeper : ∀ p, p ≠ q → one (s'.sleeper p) = one (s.sleeper p) := fun p hp ↦ by
    obtain ⟨-, hrq, hcon, -⟩ := hsame p hp
    simp only [State.sleeper, hrq, hcon]
  refine ⟨?_, fun p hp ↦ ?_, hborn, fun p ↦ ?_⟩
  · have htally := sum_add_of_eq_off q hsleeper
    have hold := h.sum
    omega
  · by_cases hpq : p = q
    · exact absurd (hpq ▸ hp) hnew
    · obtain ⟨hstate, -, hcon, -⟩ := hsame p hpq
      rw [hcon]
      exact h.fresh p (hstate ▸ hp)
  · by_cases hpq : p = q
    · subst hpq
      exact fun hrq _ ↦ hasleep hrq
    · obtain ⟨hstate, hrq, hcon, hfrozen⟩ := hsame p hpq
      rw [hstate, hrq, hcon, hfrozen]
      exact h.asleep p

/-- A move of the state or the frozen flag of a queued task. -/
theorem LoadInv.queued (h : LoadInv s) (hpc : s'.pc = s.pc ∨ ∃ c pc, s'.pc = update s.pc c pc ∧
      ∀ p, pc ≠ .born p) (hrq : s.onRq q = .queued)
    (hsame : ∀ p, p ≠ q → s'.state p = s.state p ∧ s'.frozen p = s.frozen p)
    (hun : s'.nrUninterruptible = s.nrUninterruptible) (honRq : s'.onRq = s.onRq)
    (hcon : s'.contributes = s.contributes) (hnew : s'.state q ≠ taskNew) : LoadInv s' := by
  refine h.touch q (fun p hp ↦ ⟨(hsame p hp).1, by rw [honRq], by rw [hcon], (hsame p hp).2⟩) ?_
    (fun d p hd ↦ ?_) hnew fun hno ↦ ?_
  · simp [State.sleeper, hun, honRq, hcon]
  · rw [hcon]
    rcases hpc with hpc | ⟨c, pc, hpc, hborn⟩
    · exact h.born d p (hpc ▸ hd)
    · exact h.born d p (born_of_update hpc hborn hd)
  · rw [honRq, hrq] at hno
    simp at hno

/-- `ttwu_do_activate`: the waker's CPU pays for what the sleeper's CPU got. -/
theorem LoadInv.activate (h : LoadInv s) (hno : s.onRq q = .no)
    (hpc : s'.pc = update s.pc c pc) (hborn : ∀ p, pc ≠ .born p)
    (hun : s'.nrUninterruptible =
      update s.nrUninterruptible d (s.nrUninterruptible d + -one (s.contributes q)))
    (hrq : s'.onRq = update s.onRq q .queued) (hcon : s'.contributes = s.contributes)
    (hstate : s'.state = update s.state q taskRunning) (hfrozen : s'.frozen = s.frozen) :
    LoadInv s' := by
  have hqueued : s'.onRq q = .queued := by simp [hrq]
  refine h.touch q (fun p hp ↦ ?_) ?_ (fun e p he ↦ ?_) (by simp [hstate]) fun hq ↦ ?_
  · simp [hstate, hrq, hcon, hfrozen, hp]
  · have hsum := sum_update_add s.nrUninterruptible d
      (s.nrUninterruptible d + -one (s.contributes q))
    have hold : one (s.sleeper q) = one (s.contributes q) := by simp [State.sleeper, hno]
    have hnow : one (s'.sleeper q) = 0 := by simp [State.sleeper, hqueued, one]
    rw [hun, hold, hnow]
    omega
  · rw [hcon]
    exact h.born e p (born_of_update hpc hborn he)
  · rw [hqueued] at hq
    simp at hq

theorem LoadInv.of_move (hi : Inv M s) (h : LoadInv s) (hm : Move M s l s') : LoadInv s' := by
  cases hm with
  | quiet c pc hquiet =>
      refine h.congr rfl ?_ rfl rfl rfl rfl rfl
      cases hquiet <;> simp
  | setState c x hpc halive hidle hx =>
      refine h.queued (q := s.curr c) (.inl rfl) (hi.curr_ok_of_task hpc).2.2 (fun p hp ↦ ?_)
        rfl rfl rfl ?_
      · simp [State.setTaskState, hp]
      · rcases hx with hx | ⟨rfl, -⟩
        · simpa [State.setTaskState] using hx.2.2
        · simp [State.setTaskState]
  | setIowait c b hpc => exact ⟨h.sum, h.fresh, h.born, h.asleep⟩
  | setFrozen c b hpc =>
      have hrq : s.onRq (s.curr c) = .queued := (hi.curr_ok_of_task hpc).2.2
      exact h.queued (q := s.curr c) (.inl rfl) hrq (fun p hp ↦ by simp [hp]) rfl rfl rfl
        (hi.not_new (by simp [hrq]))
  | signal c hpc hdead =>
      refine h.queued (q := s.curr c) (.inr ⟨c, _, rfl, by simp⟩) (hi.read_ok hpc).2.2.1
        (fun p hp ↦ ?_) rfl rfl rfl ?_
      · simp [State.goto, State.setTaskState, hp]
      · simp [State.goto, State.setTaskState]
  | @sleep c prevState hpc hne =>
      obtain ⟨-, -, hrq, hst, -⟩ := hi.read_ok hpc
      simp only [State.view] at hrq hst
      set load := contributesToLoad prevState (s.frozen (s.curr c)) with hload
      refine h.touch (s.curr c) (fun p hp ↦ ?_) ?_ (fun d p hd ↦ ?_) (hi.not_new (by simp [hrq]))
        fun _ _ _ ↦ ?_
      · simp [State.sleep, State.goto, State.deactivateTask, State.addUninterruptible, hp]
      · have hsum := sum_update_add s.nrUninterruptible c (s.nrUninterruptible c + one load)
        have hold : one (s.sleeper (s.curr c)) = 0 := by simp [State.sleeper, hrq, one]
        have hnow : one ((s.sleep c prevState).sleeper (s.curr c)) = one load := by
          simp [State.sleeper, State.sleep, State.goto, State.deactivateTask,
            State.addUninterruptible, hload]
        have hun : (s.sleep c prevState).nrUninterruptible =
            update s.nrUninterruptible c (s.nrUninterruptible c + one load) := rfl
        rw [hold, hnow, hun]
        omega
      · have hd' : s.pc d = .born p := born_of_update rfl (by simp) hd
        have hp : p ≠ s.curr c := by
          rintro rfl
          have hno := (hi.claims d (s.curr c) .born (by simp [State.mentions, hd', Pc.mentions])).1
          exact absurd (hrq.symm.trans hno) (by simp)
        have hsame : (s.sleep c prevState).contributes p = s.contributes p := by
          simp [State.sleep, State.goto, State.deactivateTask, State.addUninterruptible, hp]
        rw [hsame]
        exact h.born d p hd'
      · simp [State.sleep, State.goto, State.deactivateTask, State.addUninterruptible, hst]
  | countIowait c hpc => exact h.congr rfl (by simp) rfl rfl rfl rfl rfl
  | switch c next hpc hne hnext => exact h.congr rfl (by simp) rfl rfl rfl rfl rfl
  | finish c hpc => exact h.congr rfl (by simp) rfl rfl rfl rfl rfl
  | put c hpc => exact h.congr rfl (by simp) rfl rfl rfl rfl rfl
  | wake c p hpc hpi hearly => exact h.congr rfl (by simp) rfl rfl rfl rfl rfl
  | @wakeQueued c p hpc hfree hrq =>
      refine h.queued (q := p) (.inr ⟨c, _, rfl, by simp⟩) hrq (fun r hr ↦ ?_) rfl rfl rfl ?_
      · simp [State.goto, State.setTaskState, State.setPi, hr]
      · simp [State.goto, State.setTaskState, State.setPi]
  | @setWaking c p hpc =>
      have hwaking : ((s.setTaskState p taskWaking).goto c (.wake p .waking)).state p =
          taskWaking := by simp [State.goto, State.setTaskState]
      refine h.touch p (fun r hr ↦ ?_) rfl
        (fun d r hd ↦ h.born d r (born_of_update rfl (by simp) hd)) (by simp [hwaking])
        fun _ _ hne ↦ absurd hwaking hne
      simp [State.goto, State.setTaskState, hr]
  | setCpu c dest hpc => exact h.congr rfl (by simp) rfl rfl rfl rfl rfl
  | push c migrated hpc hstage => exact h.congr rfl (by simp) rfl rfl rfl rfl rfl
  | activate c hpc =>
      exact h.activate (hi.stage_ok hpc).1 rfl (by simp) rfl rfl rfl rfl rfl
  | takeList c hpc hlist => exact h.congr rfl (by simp) rfl rfl rfl rfl rfl
  | @activatePending c p rest hpc =>
      have hno := (hi.claims c p .pending (by simp [State.mentions, hpc, Pc.mentions])).1
      exact h.activate hno rfl (by simp) rfl rfl rfl rfl rfl
  | @moveOut c p src dest piLocked hpc hmem hfree hpi =>
      have hrq := (((hi.task p).mem_queue src).mp hmem).1
      refine h.touch p (fun r hr ↦ ?_) ?_
        (fun d r hd ↦ h.born d r (born_of_update rfl (by simp) hd))
        (hi.not_new (by simp [hrq])) fun hno ↦ ?_
      · simp [State.moveOut, State.goto, State.deactivateTask, State.setTaskCpu, State.setPi, hr]
      · simp [State.sleeper, State.moveOut, State.goto, State.deactivateTask, State.setTaskCpu,
          State.setPi, hrq]
      · simp [State.moveOut, State.goto, State.deactivateTask, State.setTaskCpu,
          State.setPi] at hno
  | @moveIn c p dest piLocked hpc =>
      have hmig := (hi.claims c p (.moved dest) (by simp [State.mentions, hpc, Pc.mentions])).1
      simp only [State.view] at hmig
      have hnew : s.state p ≠ taskNew := fun hnew ↦
        absurd (hmig.symm.trans ((hi.task p).unborn hnew).1) (by simp)
      refine h.touch p (fun r hr ↦ ?_) ?_
        (fun d r hd ↦ h.born d r (born_of_update rfl (by simp) hd)) hnew fun hno ↦ ?_
      · simp [State.goto, State.activateTask, State.setPi, hr]
      · simp [State.sleeper, State.goto, State.activateTask, State.setPi, hmig]
      · simp [State.goto, State.activateTask, State.setPi] at hno
  | @bear c p dest hpc hpi hnew =>
      have hrun : ((((s.setPi p (some c)).setTaskState p taskRunning).setTaskCpu p dest).goto c
          (.born p)).state p = taskRunning := by
        simp [State.goto, State.setTaskState, State.setTaskCpu]
      refine h.touch p (fun r hr ↦ ?_) rfl (fun d r hd ↦ ?_) (by simp [hrun])
        fun _ hne _ ↦ absurd hrun hne
      · simp [State.goto, State.setTaskState, State.setTaskCpu, State.setPi, hr]
      · by_cases hdc : d = c
        · subst hdc
          obtain rfl : p = r := by simpa [State.goto] using hd
          exact h.fresh p hnew
        · refine h.born d r ?_
          simpa [State.goto, State.setTaskCpu, State.setTaskState, State.setPi, hdc] using hd
  | @borne c p hpc =>
      obtain ⟨hno, hrun, -⟩ := hi.claims c p .born (by simp [State.mentions, hpc, Pc.mentions])
      simp only [State.view] at hno hrun
      have hfalse := h.born c p hpc
      refine h.touch p (fun r hr ↦ ?_) ?_
        (fun d r hd ↦ h.born d r (born_of_update rfl (by simp) hd))
        (show s.state p ≠ taskNew by simp [hrun]) fun hq ↦ ?_
      · simp [State.goto, State.activateTask, State.setPi, hr]
      · simp [State.sleeper, State.goto, State.activateTask, State.setPi, hfalse]
      · simp [State.goto, State.activateTask, State.setPi] at hq

omit [DecidableEq P] [DecidableEq C] in
theorem loadInv_init (boot : C) : LoadInv (State.init M boot) :=
  ⟨by simp [State.init, State.sleeper, one], fun _ _ ↦ rfl, fun _ _ _ ↦ rfl,
    fun p _ hnew hrun _ ↦ by cases hidle : M.idleOf p <;> simp_all [State.init]⟩

/-- In every state of every run the counters of all CPUs add up to the number of tasks
that are off the run queues and were counted, and a sleeping task was counted exactly
if its state makes it contribute to the load. -/
theorem nrUninterruptible_exact (boot : C) (ls : List (Label P C)) :
    AllStates (step M) (fun s ↦
      ∑ c, s.nrUninterruptible c = (Finset.univ.filter fun p ↦ s.sleeper p = true).card ∧
      ∀ p, s.onRq p = .no → s.state p ≠ taskNew → s.state p ≠ taskRunning →
        s.state p ≠ taskWaking → s.sleeper p = contributesToLoad (s.state p) (s.frozen p))
      (State.init M boot) ls := by
  have hall := allStates_iff_take.mp
    (allStates_of_move (M := M) (loadInv_init boot) (fun _ _ _ ↦ LoadInv.of_move) ls)
  refine allStates_iff_take.mpr fun k ↦ ?_
  obtain ⟨-, h⟩ := hall k
  refine ⟨?_, fun p hno hnew hrun hwak ↦ ?_⟩
  · rw [h.sum, ← Finset.sum_boole]
    rfl
  · rw [State.sleeper, hno, h.asleep p hno hnew hrun hwak]
    simp

end Load

/-! ## `nr_iowait` -/

def State.wokenElsewhere (s : State P C) (p : P) : Bool :=
  match s.piLock p with
  | some c => (s.pc c).migrated
  | none => s.state p = taskWaking && s.remoteWakeup p

/-- `__schedule` has taken the task off the run queue of `d` and not counted it yet. -/
def State.deactivating (s : State P C) (d : C) (p : P) : Bool :=
  s.pc d = .schedDeactivated && s.curr d = p

/-- The tasks that `rq->nr_iowait` of `d` is there to count. -/
def State.waitsOn (s : State P C) (d : C) (p : P) : Bool :=
  s.onRq p = .no && s.cpu p = d && s.inIowait p && !s.deactivating d p && !s.wokenElsewhere p

structure IowaitInv (s : State P C) : Prop where
  count : ∀ d, s.nrIowait d = ∑ p, one (s.waitsOn d p)
  fresh : ∀ p, s.state p = taskNew → s.inIowait p = false
  born : ∀ c p, s.pc c = .born p → s.inIowait p = false
  /-- A task that was listed for another CPU had let go of its own. -/
  remote : ∀ p, s.state p = taskWaking → s.piLock p = none → s.remoteWakeup p = true →
    s.onCpu p = false

omit [DecidableEq P] [Fintype P] in
theorem wokenElsewhere_frame {r : P} (hpc : s'.pc = update s.pc c pc)
    (hhold : s.piLock r ≠ some c) (hpi : s'.piLock r = s.piLock r)
    (hstate : s'.state r = s.state r) (hrem : s'.remoteWakeup r = s.remoteWakeup r) :
    s'.wokenElsewhere r = s.wokenElsewhere r := by
  unfold State.wokenElsewhere
  rw [hpi]
  cases hr : s.piLock r with
  | none => simp only [hstate, hrem]
  | some e =>
      have he : e ≠ c := fun he ↦ hhold (he ▸ hr)
      simp [hpc, he]

omit [Fintype P] in
theorem waitsOn_congr {r : P} (hrq : s'.onRq r = s.onRq r) (hcpu : s'.cpu r = s.cpu r)
    (hio : s'.inIowait r = s.inIowait r) (hdeact : s'.deactivating d r = s.deactivating d r)
    (hwoken : s'.wokenElsewhere r = s.wokenElsewhere r) : s'.waitsOn d r = s.waitsOn d r := by
  simp only [State.waitsOn, hrq, hcpu, hio, hdeact, hwoken]

omit [Fintype P] in
theorem deactivating_of_update (hpc : s'.pc = update s.pc c pc) (hpre : s.pc c ≠ .schedDeactivated)
    (hpost : pc ≠ .schedDeactivated) (hcurr : s'.curr = s.curr) :
    s'.deactivating = s.deactivating := by
  funext d r
  by_cases hd : d = c
  · subst hd
    simp [State.deactivating, hpc, hpre, hpost]
  · simp [State.deactivating, hpc, hcurr, hd]

omit [Fintype P] in
theorem waitsOn_frame {r : P} (hpc : s'.pc = update s.pc c pc) (hhold : s.piLock r ≠ some c)
    (hpi : s'.piLock r = s.piLock r) (hstate : s'.state r = s.state r)
    (hrq : s'.onRq r = s.onRq r) (hcpu : s'.cpu r = s.cpu r)
    (hio : s'.inIowait r = s.inIowait r) (hrem : s'.remoteWakeup r = s.remoteWakeup r)
    (hdeact : s'.deactivating c r = s.deactivating c r)
    (hcurr : ∀ d, d ≠ c → s'.curr d = s.curr d) (d : C) : s'.waitsOn d r = s.waitsOn d r := by
  have hwoken := wokenElsewhere_frame hpc hhold hpi hstate hrem
  have hdeact' : s'.deactivating d r = s.deactivating d r := by
    by_cases hd : d = c
    · exact hd ▸ hdeact
    · simp [State.deactivating, hpc, hcurr d hd, hd]
  exact waitsOn_congr hrq hcpu hio hdeact' hwoken

omit [Fintype P] in
theorem waitsOn_eq_false (hrq : s.onRq q ≠ .no) (d : C) : s.waitsOn d q = false := by
  simp [State.waitsOn, hrq]

/-- A move that changes one task, and the counters of the CPUs with it. -/
theorem IowaitInv.touch (hi : Inv M s) (h : IowaitInv s) (q : P)
    (hpc : s'.pc = update s.pc c pc) (hborn : ∀ r, pc = .born r → s'.inIowait r = false)
    (hrole : ∀ r, r ≠ q → (s.role c).pi ≠ some r)
    (hsame : ∀ r, r ≠ q → s'.view r = s.view r ∧ s'.piLock r = s.piLock r ∧
      s'.inIowait r = s.inIowait r ∧ s'.remoteWakeup r = s.remoteWakeup r ∧
      s'.deactivating c r = s.deactivating c r)
    (hcurr : ∀ d, d ≠ c → s'.curr d = s.curr d)
    (hcount : ∀ d, s'.nrIowait d + one (s.waitsOn d q) = s.nrIowait d + one (s'.waitsOn d q))
    (hnew : s'.state q ≠ taskNew)
    (hbearing : ∀ d, s.pc d = .born q → s'.inIowait q = s.inIowait q)
    (hremote : s'.state q = taskWaking → s'.piLock q = none → s'.remoteWakeup q = true →
      s'.onCpu q = false) : IowaitInv s' := by
  refine ⟨fun d ↦ ?_, fun r hr ↦ ?_, fun d r hd ↦ ?_, fun r ↦ ?_⟩
  · have htally := sum_add_of_eq_off (f := fun p ↦ one (s.waitsOn d p))
      (g := fun p ↦ one (s'.waitsOn d p)) q fun r hr ↦ by
        obtain ⟨hview, hpi, hio, hrem, hdeact⟩ := hsame r hr
        simp only [waitsOn_frame hpc (hi.piLock_ne (hrole r hr)) hpi (congrArg View.state hview)
          (congrArg View.onRq hview) (congrArg View.cpu hview) hio hrem hdeact hcurr d]
    have hold := h.count d
    have hnow := hcount d
    omega
  · by_cases hrq : r = q
    · exact absurd (hrq ▸ hr) hnew
    · obtain ⟨hview, -, hio, -, -⟩ := hsame r hrq
      rw [hio]
      exact h.fresh r ((congrArg View.state hview).symm.trans hr)
  · rw [hpc] at hd
    by_cases hdc : d = c
    · subst hdc
      exact hborn r (by simpa using hd)
    · have hd' : s.pc d = .born r := by simpa [hdc] using hd
      have hio : s'.inIowait r = s.inIowait r := by
        by_cases hrq : r = q
        · subst hrq
          exact hbearing d hd'
        · exact (hsame r hrq).2.2.1
      rw [hio]
      exact h.born d r hd'
  · by_cases hrq : r = q
    · subst hrq
      exact hremote
    · obtain ⟨hview, hpi, -, hrem, -⟩ := hsame r hrq
      have hstate : s'.state r = s.state r := congrArg View.state hview
      have hon : s'.onCpu r = s.onCpu r := congrArg View.onCpu hview
      rw [hstate, hpi, hrem, hon]
      exact h.remote r

/-- A move that leaves the count of the task as it is. -/
theorem IowaitInv.keep (hi : Inv M s) (h : IowaitInv s) (q : P)
    (hpc : s'.pc = update s.pc c pc) (hborn : ∀ p, pc ≠ .born p)
    (hrole : ∀ r, r ≠ q → (s.role c).pi ≠ some r)
    (hsame : ∀ r, r ≠ q → s'.view r = s.view r ∧ s'.piLock r = s.piLock r ∧
      s'.remoteWakeup r = s.remoteWakeup r)
    (hpre : s.pc c ≠ .schedDeactivated) (hpost : pc ≠ .schedDeactivated)
    (hio : s'.inIowait = s.inIowait) (hcurr : s'.curr = s.curr) (hcount : s'.nrIowait = s.nrIowait)
    (hrq : s'.onRq q = s.onRq q) (hcpu : s'.cpu q = s.cpu q)
    (hwoken : s'.wokenElsewhere q = s.wokenElsewhere q) (hnew : s'.state q ≠ taskNew)
    (hremote : s'.state q = taskWaking → s'.piLock q = none → s'.remoteWakeup q = true →
      s'.onCpu q = false) : IowaitInv s' := by
  have hdeact := deactivating_of_update hpc hpre hpost hcurr
  have hwaits : ∀ d, s'.waitsOn d q = s.waitsOn d q := fun d ↦
    waitsOn_congr hrq hcpu (by rw [hio]) (by rw [hdeact]) hwoken
  refine h.touch hi q hpc (fun r hr ↦ absurd hr (hborn r)) hrole (fun r hr ↦ ?_)
    (fun _ _ ↦ by rw [hcurr]) (fun d ↦ by rw [hwaits, hcount]) hnew (fun _ _ ↦ by rw [hio]) hremote
  obtain ⟨hview, hpi, hrem⟩ := hsame r hr
  exact ⟨hview, hpi, by rw [hio], hrem, by rw [hdeact]⟩

/-- A move that no counter depends on. -/
theorem IowaitInv.queued (hi : Inv M s) (h : IowaitInv s) (q : P)
    (hpc : s'.pc = update s.pc c pc) (hborn : ∀ r, pc = .born r → s'.inIowait r = false)
    (hrole : ∀ r, r ≠ q → (s.role c).pi ≠ some r)
    (hsame : ∀ r, r ≠ q → s'.view r = s.view r ∧ s'.piLock r = s.piLock r ∧
      s'.inIowait r = s.inIowait r ∧ s'.remoteWakeup r = s.remoteWakeup r ∧
      s'.deactivating c r = s.deactivating c r)
    (hcurr : ∀ d, d ≠ c → s'.curr d = s.curr d) (hio : s'.nrIowait = s.nrIowait)
    (hrq : s.onRq q ≠ .no) (hrq' : s'.onRq q ≠ .no) (hstate : s'.state q ≠ taskNew)
    (hwaking : s'.state q ≠ taskWaking) : IowaitInv s' := by
  refine h.touch hi q hpc hborn hrole hsame hcurr (fun d ↦ ?_) hstate (fun d hd ↦ ?_)
    fun hwak ↦ absurd hwak hwaking
  · rw [waitsOn_eq_false hrq, waitsOn_eq_false hrq', hio]
  · have hno := (hi.claims d q .born (by simp [State.mentions, hd, Pc.mentions])).1
    exact absurd hno hrq

/-- A move of `c` that changes nothing the counters are about. -/
theorem IowaitInv.congr (h : IowaitInv s) (hpc : s'.pc = update s.pc c pc)
    (hborn : ∀ p, pc ≠ .born p) (hmig : pc.migrated = (s.pc c).migrated)
    (hpre : s.pc c ≠ .schedDeactivated) (hpost : pc ≠ .schedDeactivated)
    (hview : s'.view = s.view) (hpi : s'.piLock = s.piLock) (hio : s'.inIowait = s.inIowait)
    (hrem : s'.remoteWakeup = s.remoteWakeup) (hcurr : s'.curr = s.curr)
    (hcount : s'.nrIowait = s.nrIowait) : IowaitInv s' := by
  have hstate : s'.state = s.state := funext fun r ↦ congrArg View.state (congrFun hview r)
  have hrq : s'.onRq = s.onRq := funext fun r ↦ congrArg View.onRq (congrFun hview r)
  have hon : s'.onCpu = s.onCpu := funext fun r ↦ congrArg View.onCpu (congrFun hview r)
  have hcpu : s'.cpu = s.cpu := funext fun r ↦ congrArg View.cpu (congrFun hview r)
  have hmigrated : ∀ d, (s'.pc d).migrated = (s.pc d).migrated := fun d ↦ by
    by_cases hd : d = c
    · subst hd
      simpa [hpc] using hmig
    · simp [hpc, hd]
  have hdeact := deactivating_of_update hpc hpre hpost hcurr
  refine ⟨?_, ?_, fun d p hd ↦ ?_, ?_⟩
  · simp only [State.waitsOn, State.wokenElsewhere, hmigrated, hdeact, hstate, hrq, hcpu, hpi, hio,
      hrem, hcount]
    exact h.count
  · rw [hstate, hio]
    exact h.fresh
  · rw [hio]
    exact h.born d p (born_of_update hpc hborn hd)
  · rw [hstate, hpi, hrem, hon]
    exact h.remote

/-- `ttwu_do_activate` counts down where the task was counted, unless that was done before. -/
theorem IowaitInv.activate (hi : Inv M s) (h : IowaitInv s) (migrated : Bool)
    (hno : s.onRq q = .no) (hfree : s.onCpu q = false) (hwoken : s.wokenElsewhere q = migrated)
    (hpc : s'.pc = update s.pc c pc) (hborn : ∀ p, pc ≠ .born p)
    (hpre : s.pc c ≠ .schedDeactivated) (hpost : pc ≠ .schedDeactivated)
    (hrole : ∀ r, r ≠ q → (s.role c).pi ≠ some r)
    (hsame : ∀ r, r ≠ q → s'.view r = s.view r ∧ s'.piLock r = s.piLock r)
    (hrq : s'.onRq q = .queued) (hrun : s'.state q = taskRunning) (hio : s'.inIowait = s.inIowait)
    (hrem : s'.remoteWakeup = s.remoteWakeup) (hcurr : s'.curr = s.curr)
    (hcount : s'.nrIowait = update s.nrIowait (s.cpu q)
      (s.nrIowait (s.cpu q) + -one (!migrated && s.inIowait q))) : IowaitInv s' := by
  refine h.touch hi q hpc (fun r hr ↦ absurd hr (hborn r)) hrole (fun r hr ↦ ?_)
    (fun d _ ↦ by rw [hcurr]) (fun d ↦ ?_) (by simp [hrun]) (fun _ _ ↦ by rw [hio])
    (by simp [hrun])
  · exact ⟨(hsame r hr).1, (hsame r hr).2, by rw [hio], by rw [hrem],
      by rw [deactivating_of_update hpc hpre hpost hcurr]⟩
  · have hnow : s'.waitsOn d q = false := waitsOn_eq_false (by simp [hrq]) d
    -- a task that owns no CPU is not the one that `__schedule` is about to count
    have hcur := hi.curr_ne hfree d
    have hold : s.waitsOn d q = (decide (s.cpu q = d) && (!migrated && s.inIowait q)) := by
      simp [State.waitsOn, State.deactivating, hno, hcur, hwoken, Bool.and_comm, Bool.and_left_comm]
    rw [hnow, hold, hcount]
    by_cases hd : s.cpu q = d
    · subst hd
      simp [one]
    · simp [Ne.symm hd, hd, one]

theorem IowaitInv.of_move (hi : Inv M s) (h : IowaitInv s) (hm : Move M s l s') : IowaitInv s' := by
  cases hm with
  | quiet c pc hquiet =>
      obtain ⟨hmig, hpre, hpost, hborn⟩ := hquiet.migrated
      exact h.congr rfl hborn hmig hpre hpost rfl rfl rfl rfl rfl rfl
  | setState c x hpc halive hidle hx =>
      have hrq : s.onRq (s.curr c) = .queued := (hi.curr_ok_of_task hpc).2.2
      have hstate : x ≠ taskNew ∧ x ≠ taskWaking := by
        rcases hx with hx | ⟨rfl, -⟩
        · exact ⟨hx.2.2, hx.2.1⟩
        · simp
      refine h.queued hi (s.curr c) (update_eq_self_iff.mpr hpc.symm).symm (by simp)
        (fun r hr ↦ by simp [State.role, hpc, Pc.role]) (fun r hr ↦ ?_) (fun _ _ ↦ rfl) rfl
        (by simp [hrq]) (by simp [State.setTaskState, hrq]) ?_ ?_
      · simp [State.view, State.setTaskState, State.deactivating, hr, hpc]
      · simpa [State.setTaskState] using hstate.1
      · simpa [State.setTaskState] using hstate.2
  | setIowait c b hpc =>
      have hrq : s.onRq (s.curr c) ≠ .no := by
        have hrq : s.onRq (s.curr c) = .queued := (hi.curr_ok_of_task hpc).2.2
        simp [hrq]
      refine h.queued hi (s.curr c) (update_eq_self_iff.mpr hpc.symm).symm (by simp)
        (fun r hr ↦ by simp [State.role, hpc, Pc.role]) (fun r hr ↦ ?_) (fun _ _ ↦ rfl) rfl hrq hrq
        (hi.not_new hrq) (hi.not_waking hrq)
      simp [State.view, State.deactivating, hr]
  | setFrozen c b hpc => exact ⟨h.count, h.fresh, h.born, h.remote⟩
  | signal c hpc hdead =>
      have hrq : s.onRq (s.curr c) = .queued := (hi.read_ok hpc).2.2.1
      refine h.queued hi (s.curr c) rfl (by simp) (fun r hr ↦ by simp [State.role, hpc, Pc.role])
        (fun r hr ↦ ?_) (fun _ _ ↦ rfl) rfl (by simp [hrq]) ?_ ?_ ?_
      · simp [State.view, State.goto, State.setTaskState, State.deactivating, hr, hpc]
      all_goals simp [State.goto, State.setTaskState, hrq]
  | @sleep c prevState hpc hne =>
      obtain ⟨-, hcpu, hrq, hst, -⟩ := hi.read_ok hpc
      simp only [State.view] at hcpu hrq hst
      have hrq' : s.onRq (s.curr c) ≠ .no := by simp [hrq]
      have hpc' : (s.sleep c prevState).pc = update s.pc c .schedDeactivated := rfl
      refine h.touch hi (s.curr c) hpc' (by simp)
        (fun r hr ↦ by simp [State.role, hpc, Pc.role]) (fun r hr ↦ ?_) (fun _ _ ↦ rfl)
        (fun d ↦ ?_) (hi.not_new hrq') (fun _ _ ↦ rfl)
        fun hwak ↦ absurd hwak (hi.not_waking hrq')
      · simp [State.view, State.sleep, State.goto, State.deactivateTask, State.addUninterruptible,
          State.deactivating, hr, hr.symm, hpc]
      · -- off the run queue, and not counted yet
        have hnow : (s.sleep c prevState).waitsOn d (s.curr c) = false := by
          by_cases hd : d = c
          · simp [State.waitsOn, State.deactivating, State.sleep, State.goto, State.deactivateTask,
              State.addUninterruptible, hd]
          · simp [State.waitsOn, State.sleep, State.goto, State.deactivateTask,
              State.addUninterruptible, hcpu, Ne.symm hd]
        rw [hnow, waitsOn_eq_false hrq']
        rfl
  | countIowait c hpc =>
      obtain ⟨hon, hcpu, hno, -⟩ := hi.claims c (s.curr c) .currOff
        (by simp [State.mentions, hpc, Pc.mentions])
      simp only [State.view] at hon hcpu hno
      have hwoken : s.wokenElsewhere (s.curr c) = false := by
        unfold State.wokenElsewhere
        cases hpi : s.piLock (s.curr c) with
        | none =>
            -- it still owns this CPU, so it was not listed for another one
            by_contra hne
            simp only [Bool.and_eq_true, decide_eq_true_eq, Bool.not_eq_false] at hne
            have hfree := h.remote _ hne.1 hpi hne.2
            rw [hon] at hfree
            simp at hfree
        | some e => exact hi.migrated_of_onCpu hpi hon
      have hnew : s.state (s.curr c) ≠ taskNew := fun hnew ↦
        absurd (hon.symm.trans ((hi.task _).unborn hnew).2) (by simp)
      set s' := (s.addIowait c (one (s.inIowait (s.curr c)))).goto c .schedPick with hs'
      have hpc' : s'.pc = update s.pc c .schedPick := rfl
      have hwoken' : s'.wokenElsewhere (s.curr c) = false :=
        (wokenElsewhere_frame hpc' (hi.piLock_ne (by simp [State.role, hpc, Pc.role])) rfl rfl
          rfl).trans hwoken
      refine h.touch hi (s.curr c) hpc' (by simp) (fun r hr ↦ by simp [State.role, hpc, Pc.role])
        (fun r hr ↦ ?_) (fun _ _ ↦ rfl) (fun d ↦ ?_) hnew (fun _ _ ↦ rfl)
        (h.remote (s.curr c))
      · simp [hs', State.view, State.goto, State.addIowait, State.deactivating, hr.symm]
      · simp only [State.waitsOn, hwoken, hwoken']
        by_cases hd : d = c
        · subst hd
          simp [hs', State.deactivating, State.goto, State.addIowait, hpc, hcpu, hno, one]
        · simp [hs', State.goto, State.addIowait, hcpu, hno, hd, Ne.symm hd]
  | switch c next hpc hne hnext =>
      have hrq : s.onRq next = .queued := by
        rcases hnext with hmem | rfl
        · exact (((hi.task next).mem_queue c).mp hmem).1
        · exact ((hi.task _).idle c ((M.idleOf_eq_some _ _).mpr rfl)).2.1
      have hrq' : s.onRq next ≠ .no := by simp [hrq]
      refine h.queued hi next rfl (by simp) (fun r hr ↦ by simp [State.role, hpc, Pc.role])
        (fun r hr ↦ ?_) (fun d hd ↦ by simp [hd]) rfl hrq' hrq' (hi.not_new hrq')
        (hi.not_waking hrq')
      simp [State.view, State.deactivating, hpc, hr]
  | @finish c prev dead hpc =>
      obtain ⟨hon, -⟩ := hi.claims c prev (.prevRead dead)
        (by simp [State.mentions, hpc, Pc.mentions])
      simp only [State.view] at hon
      have hnew : s.state prev ≠ taskNew := fun hnew ↦
        absurd (hon.symm.trans ((hi.task _).unborn hnew).2) (by simp)
      have hrole : ∀ r, (s.role c).pi ≠ some r := fun r ↦ by simp [State.role, hpc, Pc.role]
      set s' := { s with onCpu := update s.onCpu prev false }.goto c (.schedPut prev dead) with hs'
      have hpc' : s'.pc = update s.pc c (.schedPut prev dead) := rfl
      refine h.keep hi prev hpc' (by simp) (fun r _ ↦ hrole r) (fun r hr ↦ ?_) (by simp [hpc])
        (by simp) rfl rfl rfl rfl rfl
        (wokenElsewhere_frame hpc' (hi.piLock_ne (hrole prev)) rfl rfl rfl) hnew
        fun _ _ _ ↦ by simp [hs', State.goto]
      simp [hs', State.view, State.goto, hr]
  | put c hpc =>
      exact h.congr rfl (by simp) (by rw [hpc]; rfl) (by simp [hpc]) (by simp) rfl rfl rfl rfl
        rfl rfl
  | wake c p hpc hpi hearly =>
      have hnwak : s.state p ≠ taskWaking := hearly.2.1
      refine h.keep hi p rfl (by simp) (fun r _ ↦ by simp [State.role, hpc, Pc.role])
        (fun r hr ↦ ?_) (by simp [hpc]) (by simp) rfl rfl rfl rfl rfl ?_ hearly.2.2
        fun hwak ↦ absurd hwak hnwak
      · simp [State.view, State.goto, State.setPi, hr]
      · simp [State.wokenElsewhere, State.goto, State.setPi, Pc.migrated, hpi, hnwak]
  | @wakeQueued c p hpc hfree hrq =>
      have hrole := role_pi_of_wake hpc
      refine h.queued hi p rfl (by simp) (fun r hr ↦ by simp [hrole, hr.symm]) (fun r hr ↦ ?_)
        (fun _ _ ↦ rfl) rfl (by simp [hrq]) ?_ ?_ ?_
      · simp [State.view, State.goto, State.setTaskState, State.setPi, State.deactivating, hr, hpc]
      all_goals simp [State.goto, State.setTaskState, State.setPi, hrq]
  | @setWaking c p hpc =>
      have hrole := role_pi_of_wake hpc
      have hpi : s.piLock p = some c := ((hi.task p).pi c).mp hrole
      refine h.keep hi p rfl (by simp) (fun r hr ↦ by simp [hrole, hr.symm]) (fun r hr ↦ ?_)
        (by simp [hpc]) (by simp) rfl rfl rfl rfl rfl ?_ ?_ fun _ hnone ↦ ?_
      · simp [State.view, State.goto, State.setTaskState, hr]
      · simp [State.wokenElsewhere, State.goto, State.setTaskState, hpi, hpc, Pc.migrated]
      · simp [State.goto, State.setTaskState]
      · simp [State.goto, State.setTaskState, hpi] at hnone
  | @setCpu c p dest hpc =>
      have hrole := role_pi_of_wake hpc
      have hpi : s.piLock p = some c := ((hi.task p).pi c).mp hrole
      obtain ⟨hno, hwak, hfree⟩ := hi.stage_ok hpc
      simp only [State.view] at hno hwak hfree
      have hcur := hi.curr_ne hfree
      refine h.touch hi p rfl (by simp) (fun r hr ↦ by simp [hrole, hr.symm]) (fun r hr ↦ ?_)
        (fun _ _ ↦ rfl) (fun d ↦ ?_) ?_ (fun _ _ ↦ rfl) fun _ hnone ↦ ?_
      · simp [State.view, State.goto, State.setTaskCpu, State.addIowait, State.deactivating, hr,
          hpc]
      · -- counted on the old CPU before, and nowhere until the task is queued
        by_cases hd : d = s.cpu p
        · subst hd
          simp [State.waitsOn, State.deactivating, State.wokenElsewhere, State.goto,
            State.setTaskCpu, State.addIowait, hno, hpi, hpc, hcur, Pc.migrated, one]
        · simp [State.waitsOn, State.deactivating, State.wokenElsewhere, State.goto,
            State.setTaskCpu, State.addIowait, hno, hpi, hpc, hd, Ne.symm hd, Pc.migrated]
      · simp [State.goto, State.setTaskCpu, State.addIowait, hwak]
      · simp [State.goto, State.setTaskCpu, State.addIowait, hpi] at hnone
  | @push c p stage migrated hpc hstage =>
      have hrole := role_pi_of_wake hpc
      have hpi : s.piLock p = some c := ((hi.task p).pi c).mp hrole
      have hok := hi.stage_ok hpc
      have hwak : s.state p = taskWaking := by rcases hstage with ⟨rfl, -⟩ | rfl <;> exact hok.2.1
      have hmig : (s.pc c).migrated = migrated := by
        rw [hpc]
        rcases hstage with ⟨rfl, rfl⟩ | rfl <;> rfl
      refine h.keep hi p rfl (by simp) (fun r hr ↦ by simp [hrole, hr.symm]) (fun r hr ↦ ?_)
        (by simp [hpc]) (by simp) rfl rfl rfl rfl rfl ?_ ?_ fun _ _ hrem ↦ ?_
      · simp [State.view, State.push, State.goto, State.setPi, hr]
      · simp [State.wokenElsewhere, State.push, State.goto, State.setPi, hpi, hmig, hwak]
      · simp [State.push, State.goto, State.setPi, hwak]
      · obtain rfl : migrated = true := by simpa [State.push, State.goto, State.setPi] using hrem
        obtain ⟨-, hfalse⟩ | rfl := hstage
        · simp at hfalse
        · exact hok.2.2
  | @activate c p migrated hpc =>
      have hrole := role_pi_of_wake hpc
      have hpi : s.piLock p = some c := ((hi.task p).pi c).mp hrole
      obtain ⟨hno, -, hfree⟩ := hi.stage_ok hpc
      refine h.activate hi migrated hno hfree ?_ rfl (by simp) (by simp [hpc])
        (by simp) (fun r hr ↦ by simp [hrole, hr.symm]) (fun r hr ↦ ?_) ?_ ?_ rfl rfl rfl rfl
      · simp [State.wokenElsewhere, hpi, hpc, Pc.migrated]
      all_goals simp_all [State.view, State.goto, State.setPi, State.ttwuDoActivate,
          State.activateTask, State.setTaskState, State.addIowait, State.addUninterruptible]
  | takeList c hpc hlist =>
      exact h.congr rfl (by simp) (by rw [hpc]; rfl) (by simp [hpc]) (by simp) rfl rfl rfl rfl
        rfl rfl
  | @activatePending c p rest hpc =>
      obtain ⟨hno, hwak, hcpu, hfree⟩ := hi.claims c p .pending
        (by simp [State.mentions, hpc, Pc.mentions])
      simp only [State.view] at hno hwak hcpu hfree
      have hrole : s.role c = { list := p :: rest } := by rw [State.role, hpc]; rfl
      have hpi : s.piLock p = none := (hi.task p).listed_pi c (.inr (by simp [hrole]))
      refine h.activate hi (s.remoteWakeup p) hno hfree ?_ rfl (by simp) (by simp [hpc])
        (by simp) (fun r hr ↦ by simp [hrole]) (fun r hr ↦ ?_) ?_ ?_ rfl rfl rfl rfl
      · simp [State.wokenElsewhere, hpi, hwak]
      all_goals simp_all [State.view, State.goto, State.ttwuDoActivate, State.activateTask,
          State.setTaskState, State.addIowait, State.addUninterruptible]
  | @moveOut c p src dest piLocked hpc hmem hfree hpi =>
      have hrq : s.onRq p ≠ .no := by simp [(((hi.task p).mem_queue src).mp hmem).1]
      refine h.queued hi p rfl (by simp)
        (fun r hr ↦ by simp [State.role, hpc, Pc.role]) (fun r hr ↦ ?_) (fun _ _ ↦ rfl) rfl hrq ?_
        (hi.not_new hrq) (hi.not_waking hrq)
      · simp [State.view, State.moveOut, State.goto, State.deactivateTask, State.setTaskCpu,
          State.setPi, State.deactivating, hr, hpc]
      · simp [State.moveOut, State.goto, State.deactivateTask, State.setTaskCpu, State.setPi]
  | @moveIn c p dest piLocked hpc =>
      have hrq : s.onRq p ≠ .no := by
        have hmig : s.onRq p = .migrating :=
          (hi.claims c p (.moved dest) (by simp [State.mentions, hpc, Pc.mentions])).1
        simp [hmig]
      refine h.queued hi p rfl (by simp) (fun r hr ↦ ?_) (fun r hr ↦ ?_) (fun _ _ ↦ rfl) rfl hrq ?_
        (hi.not_new hrq) (hi.not_waking hrq)
      · cases piLocked <;> simp [State.role, hpc, Pc.role, hr.symm]
      · simp [State.view, State.goto, State.activateTask, State.setPi, State.deactivating, hr, hpc]
      · simp [State.goto, State.activateTask, State.setPi]
  | @bear c p dest hpc hpi hnew =>
      have hio := h.fresh p hnew
      refine h.touch hi p rfl (fun r hr ↦ ?_) (fun r hr ↦ by simp [State.role, hpc, Pc.role])
        (fun r hr ↦ ?_) (fun _ _ ↦ rfl) (fun d ↦ ?_) ?_ (fun _ _ ↦ rfl) fun hwak ↦ ?_
      · obtain rfl := Pc.born.inj hr
        exact hio
      · simp [State.view, State.goto, State.setTaskState, State.setTaskCpu, State.setPi,
          State.deactivating, hr, hpc]
      · simp [State.waitsOn, State.goto, State.setTaskState, State.setTaskCpu, State.setPi, hio]
      · simp [State.goto, State.setTaskState, State.setTaskCpu, State.setPi]
      · simp [State.goto, State.setTaskState, State.setTaskCpu, State.setPi] at hwak
  | @borne c p hpc =>
      obtain ⟨-, hrun, -⟩ := hi.claims c p .born (by simp [State.mentions, hpc, Pc.mentions])
      simp only [State.view] at hrun
      have hio := h.born c p hpc
      have hrole : (s.role c).pi = some p := by rw [State.role, hpc]; rfl
      refine h.touch hi p rfl (by simp) (fun r hr ↦ by simp [hrole, hr.symm]) (fun r hr ↦ ?_)
        (fun _ _ ↦ rfl) (fun d ↦ ?_) (show s.state p ≠ taskNew by simp [hrun]) (fun _ _ ↦ rfl)
        fun hwak ↦ absurd (hrun.symm.trans hwak) (by simp)
      · simp [State.view, State.goto, State.activateTask, State.setPi, State.deactivating, hr, hpc]
      · simp [State.waitsOn, State.goto, State.activateTask, State.setPi, hio]

theorem iowaitInv_init (boot : C) : IowaitInv (State.init M boot) :=
  ⟨fun d ↦ by simp [State.init, State.waitsOn, one], fun _ _ ↦ rfl, fun _ _ _ ↦ rfl,
    fun _ _ _ hrem ↦ by simp [State.init] at hrem⟩

/-- In every state of every run the counter of a CPU is the number of tasks that wait for
I/O on it; it is never negative. -/
theorem nrIowait_exact (boot : C) (ls : List (Label P C)) :
    AllStates (step M) (fun s ↦ ∀ d,
      s.nrIowait d = (Finset.univ.filter fun p ↦ s.waitsOn d p = true).card)
      (State.init M boot) ls := by
  have hall := allStates_iff_take.mp
    (allStates_of_move (M := M) (iowaitInv_init boot) (fun _ _ _ ↦ IowaitInv.of_move) ls)
  refine allStates_iff_take.mpr fun k d ↦ ?_
  rw [(hall k).2.count d, ← Finset.sum_boole]
  rfl

end NcuKernel.Wakeup
