import NcuKernel.Wakeup.Steps

/-!
# What a step can do

The labels follow the source; the moves below list, once and for all, the changes
that a label can make in a state that satisfies the outline. Every invariant of the
protocol is proved by cases on them.
-/

namespace NcuKernel.Wakeup

open Function

variable {P C : Type*} [DecidableEq P] [DecidableEq C]

/-- The CPU whose running task acts on itself. -/
def Label.self : Label P C → Option C
  | .setState c _ | .setIowait c _ | .setFrozen c _ | .doTaskDead c | .schedule c false => some c
  | _ => none

/-- A CPU goes on with what it has begun, or with what is on its wake list. -/
def Label.continues : Label P C → Bool
  | .deactivate _ _ _ | .pick _ _ | .balance _ | .select _ _ | .ttwuQueue _ _ => true
  | .ttwuPending _ | .cont _ => true
  | _ => false

/-- A balancing pass, which drops the lock inside `pick_next_task`. -/
def Label.balances : Label P C → Bool
  | .balance _ => true
  | _ => false

/-- The program points that `c` can go on to without changing anything else. -/
inductive Quiet (s : State P C) (l : Label P C) (c : C) : Pc P C → Prop
  | schedule (preempt : Bool) (hpc : s.pc c = .task)
      (hdead : s.state (s.curr c) = taskDead → preempt = false) (hl : l.continues = false)
      (hself : preempt = false → l.self = some c) :
      Quiet s l c (.schedRead preempt (s.state (s.curr c)))
  | keep {preempt : Bool} {prevState : TaskState} (hpc : s.pc c = .schedRead preempt prevState)
      (hkeep : preempt = true ∨ prevState = taskRunning) : Quiet s l c .schedPick
  | pickSame (hpc : s.pc c = .schedPick) (hrq : s.onRq (s.curr c) = .queued) : Quiet s l c .task
  | balance (hpc : s.pc c = .schedPick) (hl : l.balances = true) : Quiet s l c .schedBalance
  | balanced (hpc : s.pc c = .schedBalance) : Quiet s l c .schedPick
  | switched {prev : P} (hpc : s.pc c = .schedSwitched prev) :
      Quiet s l c (.schedFinish prev (s.state prev = taskDead))
  | onRq {p : P} (hpc : s.pc c = .wake p .matched) : Quiet s l c (.wake p .runnable)
  | offRq {p : P} {stage : WakeStage} (hpc : s.pc c = .wake p stage)
      (hstage : stage = .matched ∨ stage = .runnable) (hno : s.onRq p = .no) :
      Quiet s l c (.wake p .offRq)
  | onCpu {p : P} (hpc : s.pc c = .wake p .waking) (hon : s.onCpu p = true) :
      Quiet s l c (.wake p .onCpu)
  | released {p : P} {stage : WakeStage} (hpc : s.pc c = .wake p stage)
      (hstage : stage = .waking ∨ stage = .spin) (hon : s.onCpu p = false) :
      Quiet s l c (.wake p .select)
  | spin {p : P} (hpc : s.pc c = .wake p .onCpu) : Quiet s l c (.wake p .spin)
  | stay {p : P} (hpc : s.pc c = .wake p .select) : Quiet s l c (.wake p (.queue false))
  | direct {p : P} {migrated : Bool} (hpc : s.pc c = .wake p (.queue migrated)) :
      Quiet s l c (.wake p (.activate migrated))
  | pendingDone (hpc : s.pc c = .pending []) : Quiet s l c .task

/-- The deactivation of `prev` in `__schedule`. -/
def State.sleep (s : State P C) (c : C) (prevState : TaskState) : State P C :=
  let load := contributesToLoad prevState (s.frozen (s.curr c))
  let t := { s with contributes := update s.contributes (s.curr c) load }
  ((t.addUninterruptible c (one load)).deactivateTask c (s.curr c) true).goto c .schedDeactivated

/-- `__ttwu_queue_wakelist` for the CPU of `p`, and the end of the wakeup. -/
def State.push (s : State P C) (c : C) (p : P) (migrated : Bool) : State P C :=
  ({ s with
    remoteWakeup := update s.remoteWakeup p migrated
    wakeList := update s.wakeList (s.cpu p) (s.wakeList (s.cpu p) ++ [p]) }.setPi p none).goto c
      .task

inductive Move (M : Machine P C) (s : State P C) (l : Label P C) : State P C → Prop
  | quiet (c : C) (pc : Pc P C) (hquiet : Quiet s l c pc) : Move M s l (s.goto c pc)
  | setState (c : C) (x : TaskState) (hpc : s.pc c = .task)
      (halive : s.state (s.curr c) ≠ taskDead)
      (hidle : M.idleOf (s.curr c) = none ∨ x = taskRunning)
      (hx : Settable x ∨ x = taskDead ∧ s.piLock (s.curr c) = none) (hl : l.continues = false)
      (hself : l.self = some c ∨ x = taskRunning) :
      Move M s l (s.setTaskState (s.curr c) x)
  | setIowait (c : C) (b : Bool) (hpc : s.pc c = .task) (hl : l.continues = false) :
      Move M s l { s with inIowait := update s.inIowait (s.curr c) b }
  | setFrozen (c : C) (b : Bool) (hpc : s.pc c = .task) (hl : l.continues = false) :
      Move M s l { s with frozen := update s.frozen (s.curr c) b }
  | signal (c : C) {prevState : TaskState} (hpc : s.pc c = .schedRead false prevState)
      (hdead : prevState ≠ taskDead) :
      Move M s l ((s.setTaskState (s.curr c) taskRunning).goto c .schedPick)
  | sleep (c : C) {prevState : TaskState} (hpc : s.pc c = .schedRead false prevState)
      (hne : prevState ≠ taskRunning) :
      Move M s l (s.sleep c prevState)
  | countIowait (c : C) (hpc : s.pc c = .schedDeactivated) :
      Move M s l ((s.addIowait c (one (s.inIowait (s.curr c)))).goto c .schedPick)
  | switch (c : C) (next : P) (hpc : s.pc c = .schedPick) (hne : s.curr c ≠ next)
      (hnext : next ∈ s.queue c ∨ next = M.idle c) :
      Move M s l { s with
        curr := update s.curr c next
        onCpu := update s.onCpu next true
        pc := update s.pc c (.schedSwitched (s.curr c)) }
  | finish (c : C) {prev : P} {dead : Bool} (hpc : s.pc c = .schedFinish prev dead) :
      Move M s l ({ s with onCpu := update s.onCpu prev false }.goto c (.schedPut prev dead))
  | put (c : C) {prev : P} {dead : Bool} (hpc : s.pc c = .schedPut prev dead) :
      Move M s l ({ s with
        put := update s.put prev (s.put prev + if dead then 1 else 0) }.goto c .task)
  | wake (c : C) (p : P) (hpc : s.pc c = .task) (hpi : s.piLock p = none)
      (hearly : Mention.early.Ok c (s.view p)) (hl : l.continues = false) :
      Move M s l ((s.setPi p (some c)).goto c (.wake p .matched))
  | wakeQueued (c : C) {p : P} (hpc : s.pc c = .wake p .runnable)
      (hfree : s.rqFree (s.cpu p) = true) (hrq : s.onRq p = .queued) :
      Move M s l (((s.setTaskState p taskRunning).setPi p none).goto c .task)
  | setWaking (c : C) {p : P} (hpc : s.pc c = .wake p .offRq) :
      Move M s l ((s.setTaskState p taskWaking).goto c (.wake p .waking))
  | setCpu (c : C) {p : P} (dest : C) (hpc : s.pc c = .wake p .select) :
      Move M s l (((s.addIowait (s.cpu p) (-one (s.inIowait p))).setTaskCpu p dest).goto c
        (.wake p (.queue true)))
  | push (c : C) {p : P} {stage : WakeStage} (migrated : Bool) (hpc : s.pc c = .wake p stage)
      (hstage : stage = .onCpu ∧ migrated = false ∨ stage = .queue migrated) :
      Move M s l (s.push c p migrated)
  | activate (c : C) {p : P} {migrated : Bool} (hpc : s.pc c = .wake p (.activate migrated)) :
      Move M s l (((s.ttwuDoActivate (s.cpu p) p migrated).setPi p none).goto c .task)
  | takeList (c : C) (hpc : s.pc c = .task) (hlist : s.wakeList c ≠ []) :
      Move M s l ({ s with wakeList := update s.wakeList c [] }.goto c (.pending (s.wakeList c)))
  | activatePending (c : C) {p : P} {rest : List P} (hpc : s.pc c = .pending (p :: rest)) :
      Move M s l ((s.ttwuDoActivate c p (s.remoteWakeup p)).goto c (.pending rest))
  | moveOut (c : C) {p : P} {src : C} (dest : C) (piLocked : Bool) (hpc : s.pc c = .task)
      (hmem : p ∈ s.queue src) (hfree : s.onCpu p = false)
      (hpi : piLocked = true → s.piLock p = none) (hl : l.continues = false) :
      Move M s l ((s.setPi p (if piLocked then some c else s.piLock p)).moveOut c p src dest
        piLocked)
  | moveIn (c : C) {p : P} {dest : C} {piLocked : Bool} (hpc : s.pc c = .moved p dest piLocked) :
      Move M s l (((s.activateTask dest p).setPi p (if piLocked then none else s.piLock p)).goto c
        .task)
  | bear (c : C) {p : P} (dest : C) (hpc : s.pc c = .task) (hpi : s.piLock p = none)
      (hnew : s.state p = taskNew) (hl : l.continues = false) :
      Move M s l ((((s.setPi p (some c)).setTaskState p taskRunning).setTaskCpu p dest).goto c
        (.born p))
  | borne (c : C) {p : P} (hpc : s.pc c = .born p) :
      Move M s l (((s.activateTask (s.cpu p) p).setPi p none).goto c .task)

variable {M : Machine P C} {s s' : State P C} {l : Label P C} {c : C} {p q : P}

/-! ## Each label is one of the moves -/

theorem move_deactivate {preempt : Bool} {prevState : TaskState}
    (hpc : s.pc c = .schedRead preempt prevState) (pending fatal : Bool) :
    Move M s l (s.schedDeactivate M c preempt prevState pending fatal) := by
  unfold State.schedDeactivate
  by_cases hcond : (!preempt && prevState ≠ 0) = true
  · rw [if_pos hcond]
    simp only [ne_eq, Bool.and_eq_true, Bool.not_eq_eq_eq_not, Bool.not_true,
      decide_eq_true_eq] at hcond
    obtain ⟨rfl, hne⟩ := hcond
    by_cases hsig : M.signalPendingState prevState pending fatal = true
    · rw [if_pos hsig]
      refine .signal c hpc ?_
      rintro rfl
      exact absurd (hsig.symm.trans (M.signalPendingState_dead pending fatal)) (by simp)
    · rw [if_neg hsig]
      exact .sleep c hpc hne
  · rw [if_neg hcond]
    refine .quiet c _ (.keep hpc ?_)
    cases preempt
    · exact .inr (by simpa [taskRunning] using hcond)
    · exact .inl rfl

theorem Inv.move_pick (h : Inv M s) {next : P} (hpc : s.pc c = .schedPick)
    (hnext : next ∈ s.queue c ∨ next = M.idle c) : Move M s l (s.schedSwitch c next) := by
  unfold State.schedSwitch
  by_cases hne : s.curr c = next
  · rw [if_pos hne]
    refine .quiet c _ (.pickSame hpc ?_)
    subst hne
    rcases hnext with hmem | heq
    · exact (((h.task _).mem_queue c).mp hmem).1
    · exact ((h.task _).idle c ((M.idleOf_eq_some _ _).mpr heq.symm)).2.1
  · rw [if_neg hne]
    exact .switch c next hpc hne hnext

theorem move_wakeCont {stage : WakeStage} (hpc : s.pc c = .wake q stage)
    (hs' : s.wakeCont c q stage = some s') : Move M s l s' := by
  cases stage with
  | matched =>
      obtain rfl := Option.some.inj hs'
      by_cases hrq : s.onRq q = .no
      · rw [if_pos hrq]
        exact .quiet c _ (.offRq hpc (.inl rfl) hrq)
      · rw [if_neg hrq]
        exact .quiet c _ (.onRq hpc)
  | runnable =>
      simp only [State.wakeCont, Option.ite_none_right_eq_some, ne_eq, Bool.and_eq_true,
        decide_eq_true_eq] at hs'
      obtain ⟨⟨hfree, hmig⟩, hs'⟩ := hs'
      split at hs'
      · obtain rfl := Option.some.inj hs'
        exact .wakeQueued c hpc hfree ‹_›
      · obtain rfl := Option.some.inj hs'
        refine .quiet c _ (.offRq hpc (.inr rfl) ?_)
        cases hq : s.onRq q <;> simp_all
  | offRq =>
      obtain rfl := Option.some.inj hs'
      exact .setWaking c hpc
  | waking =>
      obtain rfl := Option.some.inj hs'
      by_cases hon : s.onCpu q = true
      · rw [if_pos hon]
        exact .quiet c _ (.onCpu hpc hon)
      · rw [if_neg hon]
        exact .quiet c _ (.released hpc (.inl rfl) (by simpa using hon))
  | spin =>
      simp only [State.wakeCont, Option.ite_none_left_eq_some, Bool.not_eq_true] at hs'
      obtain ⟨hon, hs'⟩ := hs'
      obtain rfl := Option.some.inj hs'
      exact .quiet c _ (.released hpc (.inr rfl) hon)
  | activate migrated =>
      simp only [State.wakeCont, Option.ite_none_right_eq_some] at hs'
      obtain rfl := Option.some.inj hs'.2
      exact .activate c hpc
  | onCpu | select | queue => simp [State.wakeCont] at hs'

theorem Inv.move_pendingCont (h : Inv M s) {list : List P} (hpc : s.pc c = .pending list)
    (hs' : s.pendingCont c list = some s') : Move M s l s' := by
  cases list with
  | nil =>
      obtain rfl := Option.some.inj hs'
      exact .quiet c _ (.pendingDone hpc)
  | cons p rest =>
      obtain ⟨-, -, hcpu, hfree⟩ := h.claims c p .pending
        (by simp [State.mentions, hpc, Pc.mentions])
      simp only [State.view] at hcpu hfree
      simp only [State.pendingCont, hfree, Bool.false_eq_true, if_false, ne_eq, hcpu,
        not_true_eq_false] at hs'
      obtain rfl := Option.some.inj hs'
      exact .activatePending c hpc

theorem Inv.move_cont (h : Inv M s) (hs' : s.cont c = some s') : Move M s l s' := by
  unfold State.cont at hs'
  cases hpc : s.pc c with
  | schedDeactivated =>
      rw [hpc] at hs'
      obtain rfl := Option.some.inj hs'
      exact .countIowait c hpc
  | schedBalance =>
      rw [hpc] at hs'
      obtain rfl := Option.some.inj hs'
      exact .quiet c _ (.balanced hpc)
  | schedSwitched prev =>
      rw [hpc] at hs'
      obtain rfl := Option.some.inj hs'
      exact .quiet c _ (.switched hpc)
  | schedFinish prev dead =>
      rw [hpc] at hs'
      obtain rfl := Option.some.inj hs'
      exact .finish c hpc
  | schedPut prev dead =>
      rw [hpc] at hs'
      obtain rfl := Option.some.inj hs'
      exact .put c hpc
  | wake p stage =>
      rw [hpc] at hs'
      exact move_wakeCont hpc hs'
  | pending list =>
      rw [hpc] at hs'
      exact h.move_pendingCont hpc hs'
  | moved p dest piLocked =>
      rw [hpc] at hs'
      simp only [Option.ite_none_right_eq_some] at hs'
      obtain rfl := Option.some.inj hs'.2
      exact .moveIn c hpc
  | born p =>
      rw [hpc] at hs'
      simp only [Option.ite_none_right_eq_some] at hs'
      obtain rfl := Option.some.inj hs'.2
      exact .borne c hpc
  | task | schedRead | schedPick =>
      rw [hpc] at hs'
      simp at hs'

theorem ttwuQueueWakelist_eq_some {self : C} {cpu : C} {cpuActive wfOnCpu migrated : Bool}
    (hs' : s.ttwuQueueWakelist M self q cpu cpuActive wfOnCpu migrated = some s') :
    s' = { s with
      remoteWakeup := update s.remoteWakeup q migrated
      wakeList := update s.wakeList cpu (s.wakeList cpu ++ [q]) } := by
  unfold State.ttwuQueueWakelist at hs'
  split at hs'
  · split at hs'
    · simp at hs'
    · exact (Option.some.inj hs').symm
  · simp at hs'

theorem inTask_iff :
    s.inTask M c = true ↔
      s.pc c = .task ∧ M.idleOf (s.curr c) = none ∧ s.state (s.curr c) ≠ taskDead := by
  simp [State.inTask, and_assoc]

theorem Inv.move (h : Inv M s) (hs' : next M s l = some s') : Move M s l s' := by
  cases l with
  | setState c v =>
      simp only [next, Option.ite_none_right_eq_some, Bool.and_eq_true, inTask_iff,
        decide_eq_true_eq] at hs'
      obtain ⟨⟨⟨hpc, hidle, halive⟩, hv⟩, hs'⟩ := hs'
      obtain rfl := Option.some.inj hs'
      exact .setState c v hpc halive (.inl hidle) (.inl hv) rfl (.inl rfl)
  | setIowait c b =>
      simp only [next, Option.ite_none_right_eq_some, inTask_iff] at hs'
      obtain rfl := Option.some.inj hs'.2
      exact .setIowait c b hs'.1.1 rfl
  | setFrozen c b =>
      simp only [next, Option.ite_none_right_eq_some, inTask_iff] at hs'
      obtain rfl := Option.some.inj hs'.2
      exact .setFrozen c b hs'.1.1 rfl
  | doTaskDead c =>
      simp only [next, Option.ite_none_right_eq_some, Bool.and_eq_true, inTask_iff,
        Option.isNone_iff_eq_none] at hs'
      obtain ⟨⟨⟨hpc, hidle, halive⟩, hpi⟩, hs'⟩ := hs'
      obtain rfl := Option.some.inj hs'
      exact .setState c taskDead hpc halive (.inl hidle) (.inr ⟨rfl, hpi⟩) rfl (.inl rfl)
  | schedule c preempt =>
      simp only [next, Option.ite_none_right_eq_some, Bool.and_eq_true, decide_eq_true_eq] at hs'
      obtain ⟨⟨hpc, hdead⟩, hs'⟩ := hs'
      obtain rfl := Option.some.inj hs'
      refine .quiet c _ (.schedule preempt hpc (fun hd ↦ by simpa [hd] using hdead) rfl ?_)
      rintro rfl
      rfl
  | deactivate c pending fatal =>
      simp only [next] at hs'
      split at hs'
      · obtain rfl := Option.some.inj hs'
        exact move_deactivate ‹_› pending fatal
      · simp at hs'
  | pick c next =>
      simp only [Wakeup.next, Option.ite_none_right_eq_some, Bool.and_eq_true, Bool.or_eq_true,
        decide_eq_true_eq] at hs'
      obtain ⟨⟨hpc, hnext⟩, hs'⟩ := hs'
      obtain rfl := Option.some.inj hs'
      exact h.move_pick hpc hnext
  | balance c =>
      simp only [next, Option.ite_none_right_eq_some] at hs'
      obtain rfl := Option.some.inj hs'.2
      exact .quiet c _ (.balance hs'.1 rfl)
  | wakeCurrent c mask =>
      simp only [next, Option.ite_none_right_eq_some, Bool.and_eq_true, decide_eq_true_eq] at hs'
      obtain ⟨⟨⟨hpc, hmask⟩, hmatch⟩, hs'⟩ := hs'
      obtain rfl := Option.some.inj hs'
      have hearly : Mention.early.Ok c (s.view (s.curr c)) := Mention.ok_early hmask hmatch
      exact .setState c taskRunning hpc hearly.1 (.inr rfl) (.inl (by decide)) rfl (.inr rfl)
  | wake c p mask =>
      simp only [next, Option.ite_none_right_eq_some, Bool.and_eq_true,
        Option.isNone_iff_eq_none, decide_eq_true_eq] at hs'
      obtain ⟨⟨⟨⟨⟨hpc, -⟩, hmask⟩, hpi⟩, hmatch⟩, hs'⟩ := hs'
      obtain rfl := Option.some.inj hs'
      exact .wake c p hpc hpi (Mention.ok_early hmask hmatch) rfl
  | select c cpu =>
      simp only [next] at hs'
      split at hs'
      · rename_i p hpc
        obtain rfl := Option.some.inj hs'
        unfold State.wakeSelect
        split
        · exact .setCpu c cpu hpc
        · exact .quiet c _ (.stay hpc)
      · simp at hs'
  | ttwuQueue c cpuActive =>
      simp only [next] at hs'
      split at hs'
      · rename_i p hpc
        split at hs'
        · rename_i t ht
          obtain rfl := Option.some.inj hs'
          obtain rfl := ttwuQueueWakelist_eq_some ht
          exact .push c false hpc (.inl ⟨rfl, rfl⟩)
        · obtain rfl := Option.some.inj hs'
          exact .quiet c _ (.spin hpc)
      · rename_i p migrated hpc
        split at hs'
        · rename_i t ht
          obtain rfl := Option.some.inj hs'
          obtain rfl := ttwuQueueWakelist_eq_some ht
          exact .push c migrated hpc (.inr rfl)
        · obtain rfl := Option.some.inj hs'
          exact .quiet c _ (.direct hpc)
      · simp at hs'
  | ttwuPending c =>
      simp only [next, Option.ite_none_right_eq_some, Bool.and_eq_true, decide_eq_true_eq] at hs'
      obtain ⟨⟨hpc, hlist⟩, hs'⟩ := hs'
      obtain rfl := Option.some.inj hs'
      exact .takeList c hpc hlist
  | migrate c p dest =>
      simp only [next, Option.ite_none_right_eq_some, Bool.and_eq_true,
        Option.isNone_iff_eq_none, decide_eq_true_eq] at hs'
      obtain ⟨⟨⟨⟨hpc, hne⟩, hpi⟩, hmem⟩, hs'⟩ := hs'
      obtain rfl := Option.some.inj hs'
      have hcpu := (((h.task p).mem_queue c).mp hmem).2.1
      have hfree : s.onCpu p = false :=
        h.onCpu_eq_false (by simp [State.out, hcpu, hpc, Pc.out]) (by rw [hcpu]; exact hne.symm)
      exact .moveOut c dest true hpc hmem hfree (fun _ ↦ hpi) rfl
  | pull c p src dest =>
      simp only [next, Option.ite_none_right_eq_some, Bool.and_eq_true, decide_eq_true_eq,
        Bool.not_eq_eq_eq_not, Bool.not_true] at hs'
      obtain ⟨⟨⟨⟨hpc, -⟩, hmem⟩, hfree⟩, hs'⟩ := hs'
      obtain rfl := Option.some.inj hs'
      have hsame : s.setPi p (if false then some c else s.piLock p) = s := by simp [State.setPi]
      have hmove : Move M s (.pull c p src dest) _ :=
        .moveOut c dest false hpc hmem hfree (by simp) rfl
      rwa [hsame] at hmove
  | wakeNew c p dest =>
      simp only [next, Option.ite_none_right_eq_some, Bool.and_eq_true,
        Option.isNone_iff_eq_none, decide_eq_true_eq] at hs'
      obtain ⟨⟨⟨hpc, hpi⟩, hnew⟩, hs'⟩ := hs'
      obtain rfl := Option.some.inj hs'
      exact .bear c dest hpc hpi hnew rfl
  | cont c => exact h.move_cont hs'

end NcuKernel.Wakeup
