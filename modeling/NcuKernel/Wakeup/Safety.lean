import NcuKernel.Wakeup.Moves

/-!
# Safety of sleeping and waking up

The proof outline holds in every state of every run, whatever the CPUs interleave.
What follows from it: a task is in one place, one CPU uses it, and the warnings in
the wakeup path are never printed.
-/

namespace NcuKernel.Wakeup

open Function Runs

variable {P C : Type*} {M : Machine P C} {s s' : State P C} {l : Label P C} {c d : C} {p q : P}

/-! ## What the outline says -/

/-- A task that is on a run queue or between two has been born, and nobody is waking it. -/
theorem Inv.not_new (h : Inv M s) (hrq : s.onRq q ≠ .no) : s.state q ≠ taskNew := fun hnew ↦
  hrq ((h.task q).unborn hnew).1

theorem Inv.not_waking (h : Inv M s) (hrq : s.onRq q ≠ .no) : s.state q ≠ taskWaking := fun hwak ↦
  hrq (h.waking_off hwak)

theorem role_pi_of_wake {stage : WakeStage} (hpc : s.pc c = .wake p stage) :
    (s.role c).pi = some p := by
  rw [State.role, hpc]
  cases stage <;> rfl

/-- A CPU holds no other lock than its role says. -/
theorem Inv.piLock_ne (h : Inv M s) {r : P} (hrole : (s.role c).pi ≠ some r) :
    s.piLock r ≠ some c := fun hr ↦ hrole (((h.task r).pi c).mpr hr)

/-- The registers or the stack of `c` are those of `p`. -/
def State.Uses (s : State P C) (c : C) (p : P) : Prop := s.curr c = p ∨ s.out c = some p

/-- Every program point knows that the running task owns its CPU. -/
theorem Inv.curr_owned (h : Inv M s) (c : C) :
    s.onCpu (s.curr c) = true ∧ s.cpu (s.curr c) = c := by
  have hclaim : ∃ k, (s.curr c, k) ∈ s.mentions c ∧
      ∀ v, k.Ok c v → v.onCpu = true ∧ v.cpu = c := by
    unfold State.mentions
    cases s.pc c with
    | schedRead preempt prevState =>
        exact ⟨_, List.mem_singleton_self _, fun v hv ↦ ⟨hv.1, hv.2.1⟩⟩
    | schedDeactivated => exact ⟨_, List.mem_singleton_self _, fun v hv ↦ ⟨hv.1, hv.2.1⟩⟩
    | schedPick | schedBalance => exact ⟨_, List.mem_singleton_self _, fun v hv ↦ ⟨hv.1, hv.2.1⟩⟩
    | _ => exact ⟨.curr, by simp [Pc.mentions], fun v hv ↦ ⟨hv.1, hv.2.1⟩⟩
  obtain ⟨k, hk, hok⟩ := hclaim
  exact hok _ (h.claims c _ k hk)

/-- A task that owns no CPU is nobody's `curr`. -/
theorem Inv.curr_ne (h : Inv M s) (hfree : s.onCpu p = false) (d : C) : s.curr d ≠ p := fun hd ↦ by
  have hon := (h.curr_owned d).1
  rw [hd, hfree] at hon
  simp at hon

theorem Inv.out_owned (h : Inv M s) (hout : s.out c = some p) :
    s.onCpu p = true ∧ s.cpu p = c := by
  cases hpc : s.pc c with
  | schedSwitched prev =>
      obtain rfl : prev = p := by simpa [State.out, hpc, Pc.out] using hout
      have hok := h.claims c prev .prev (by simp [State.mentions, hpc, Pc.mentions])
      exact ⟨hok.1, hok.2.1⟩
  | schedFinish prev dead =>
      obtain rfl : prev = p := by simpa [State.out, hpc, Pc.out] using hout
      have hok := h.claims c prev (.prevRead dead) (by simp [State.mentions, hpc, Pc.mentions])
      exact ⟨hok.1, hok.2.1⟩
  | _ => simp [State.out, hpc, Pc.out] at hout

theorem Inv.uses_owned (h : Inv M s) (hu : s.Uses c p) : s.onCpu p = true ∧ s.cpu p = c := by
  rcases hu with rfl | hout
  · exact h.curr_owned c
  · exact h.out_owned hout

theorem pi_of_bearing (hbear : (s.role c).bearing = some p) : (s.role c).pi = some p := by
  unfold State.role at *
  cases hpc : s.pc c with
  | wake q stage => cases stage <;> simp_all [Pc.role]
  | _ => simp_all [Pc.role]

/-- A new task is in the hands of `wake_up_new_task`, which holds its lock. -/
theorem Inv.not_running_of_wake (h : Inv M s) {stage : WakeStage} (hpc : s.pc c = .wake q stage)
    (hno : s.onRq q = .no) : s.state q ≠ taskRunning := fun hrun ↦ by
  obtain ⟨d, hd⟩ := (h.task q).running hrun hno
  have hpid := ((h.task q).pi d).mp (pi_of_bearing hd)
  have hpic := ((h.task q).pi c).mp (role_pi_of_wake hpc)
  obtain rfl : d = c := Option.some.inj (hpid.symm.trans hpic)
  cases stage <;> simp [State.role, hpc, Pc.role] at hd

/-- Who has a task between `TASK_WAKING` and its run queue. -/
inductive Hand (C : Type*) where
  | waker (c : C)
  | wakeList (c : C)
  | pending (c : C)

def Hand.Holds (s : State P C) (p : P) : Hand C → Prop
  | .waker c => (s.role c).carried = some p
  | .wakeList c => p ∈ s.wakeList c
  | .pending c => p ∈ (s.role c).list

theorem pi_of_carried (hcar : (s.role c).carried = some p) : (s.role c).pi = some p := by
  unfold State.role at *
  cases hpc : s.pc c with
  | wake q stage => cases stage <;> simp_all [Pc.role]
  | _ => simp_all [Pc.role]

theorem Inv.waking_of_holds (h : Inv M s) {hand : Hand C} (hp : hand.Holds s p) :
    s.state p = taskWaking := by
  cases hand with
  | waker c =>
      obtain ⟨k, hk, hok⟩ := (mention_of_role p).1 hp
      exact (hok _ (h.claims c p k hk)).2
  | wakeList c => exact (h.listed (.inl hp)).2.1
  | pending c => exact (h.listed (.inr hp)).2.1

theorem Inv.hand_unique (h : Inv M s) {hand hand' : Hand C} (hp : hand.Holds s p)
    (hp' : hand'.Holds s p) : hand = hand' := by
  have hlocked : ∀ c, (s.role c).carried = some p → s.piLock p = some c := fun c hc ↦
    ((h.task p).pi c).mp (pi_of_carried hc)
  -- a listed task is on the lists of its own CPU, where it stands once
  have hlisted : ∀ c, p ∈ s.wakeList c ∨ p ∈ (s.role c).list → s.piLock p = none ∧ s.cpu p = c :=
    fun c hc ↦ ⟨(h.task p).listed_pi c hc, (h.listed hc).2.2⟩
  have honce : ∀ c, p ∈ s.wakeList c → p ∉ (s.role c).list := fun c hc hc' ↦
    (List.nodup_append.mp (h.lists_nodup c)).2.2 p hc p hc' rfl
  cases hand <;> cases hand' <;> simp only [Hand.Holds] at hp hp' <;> grind

/-- Between the deactivation of `prev` and the store that lets go of it. -/
def Pc.leaving : Pc P C → Bool
  | .schedDeactivated | .schedPick | .schedBalance => true
  | .schedSwitched _ | .schedFinish _ _ => true
  | _ => false

/-- A task that is off its run queue and still owns a CPU is on its way out of `__schedule`. -/
theorem Inv.leaving_of_onCpu (h : Inv M s) (hno : s.onRq p = .no) (hon : s.onCpu p = true) :
    (s.pc (s.cpu p)).leaving = true := by
  rcases (h.task p).owned hon with hcur | hout
  · have hclaims := h.claims (s.cpu p) p
    unfold State.mentions at hclaims
    rw [hcur] at hclaims
    cases hpc : s.pc (s.cpu p) with
    | schedDeactivated | schedPick | schedBalance | schedSwitched | schedFinish => rfl
    | schedRead preempt prevState =>
        have hrq := (hclaims (.currRead preempt prevState) (by simp [hpc, Pc.mentions])).2.2.1
        exact absurd (hno.symm.trans hrq) (by simp)
    | _ =>
        have hrq := (hclaims .curr (by simp [hpc, Pc.mentions])).2.2
        exact absurd (hno.symm.trans hrq) (by simp)
  · unfold State.out at hout
    cases hpc : s.pc (s.cpu p) <;> simp_all [Pc.out, Pc.leaving]

/-- The condition for the wake list of the own CPU needs `WF_ON_CPU`. -/
theorem ttwuQueueCond_self {cpuActive : Bool} : s.ttwuQueueCond M c c cpuActive false = false := by
  simp [State.ttwuQueueCond, M.cpusShareCache_self]

/-! ## Every step -/

variable [DecidableEq P] [DecidableEq C]

theorem Inv.of_quiet (h : Inv M s) {pc : Pc P C} (hq : Quiet s l c pc) : Inv M (s.goto c pc) := by
  cases hq with
  | schedule preempt hpc hdead =>
      obtain ⟨hon, hcpu, hrq⟩ := h.curr_ok_of_task hpc
      refine h.goto (by rw [State.role, hpc]; rfl) (by rw [State.out, hpc]; rfl) fun p k hmem ↦ ?_
      obtain ⟨rfl, rfl⟩ := Prod.mk.inj (List.mem_singleton.mp hmem)
      exact ⟨hon, hcpu, hrq, rfl, hdead⟩
  | keep hpc hkeep =>
      obtain ⟨hon, hcpu, hrq, hst, hdead⟩ := h.read_ok hpc
      refine h.goto (by rw [State.role, hpc]; rfl) (by rw [State.out, hpc]; rfl) fun p k hmem ↦ ?_
      obtain ⟨rfl, rfl⟩ := Prod.mk.inj (List.mem_singleton.mp hmem)
      refine ⟨hon, hcpu, by simp [hrq], fun hd ↦ ?_⟩
      -- a dead task is not preempted, so `prev` is alive here
      rw [hst] at hd
      rcases hkeep with hpre | hrun
      · exact absurd (hpre.symm.trans (hdead hd)) (by simp)
      · exact absurd (hd.symm.trans hrun) (by simp)
  | pickSame hpc hrq =>
      obtain ⟨hon, hcpu, -, -⟩ := h.claims c (s.curr c) .prev
        (by simp [State.mentions, hpc, Pc.mentions])
      exact h.gotoTask (by rw [State.role, hpc]; rfl) (by rw [State.out, hpc]; rfl)
        ⟨hon, hcpu, hrq⟩
  | balance hpc | balanced hpc =>
      refine h.goto (by rw [State.role, hpc]; rfl) (by rw [State.out, hpc]; rfl) fun p k hmem ↦ ?_
      exact h.claims c p k (by simpa only [State.mentions, hpc, Pc.mentions] using hmem)
  | switched hpc =>
      refine h.goto (by rw [State.role, hpc]; rfl) (by rw [State.out, hpc]; rfl) fun p k hmem ↦ ?_
      rcases mem_curr_cons hmem with ⟨rfl, rfl⟩ | hmem
      · exact h.claims c _ _ (by simp [State.mentions, hpc, Pc.mentions])
      · obtain ⟨rfl, rfl⟩ := Prod.mk.inj (List.mem_singleton.mp hmem)
        obtain ⟨hon, hcpu, hmig, hdead⟩ := h.claims c p .prev
          (by simp [State.mentions, hpc, Pc.mentions])
        exact ⟨hon, hcpu, hmig, hdead, by simp [State.view]⟩
  | onRq hpc =>
      have hok := h.stage_ok hpc
      exact h.gotoStage hpc rfl hok
  | offRq hpc hstage hno =>
      have hok := h.stage_ok hpc
      rcases hstage with rfl | rfl
      · exact h.gotoStage hpc rfl ⟨hno, hok⟩
      · exact h.gotoStage hpc rfl ⟨hno, hok⟩
  | onCpu hpc hon =>
      have hok := h.stage_ok hpc
      exact h.gotoStage hpc rfl ⟨hok.1, hok.2, h.remote_of_onCpu hpc hok.1 hon⟩
  | released hpc hstage hon =>
      have hok := h.stage_ok hpc
      rcases hstage with rfl | rfl
      · exact h.gotoStage hpc rfl ⟨hok.1, hok.2, hon⟩
      · exact h.gotoStage hpc rfl ⟨hok.1, hok.2, hon⟩
  | spin hpc =>
      have hok := h.stage_ok hpc
      exact h.gotoStage hpc rfl ⟨hok.1, hok.2.1⟩
  | stay hpc =>
      have hok := h.stage_ok hpc
      exact h.gotoStage hpc rfl hok
  | direct hpc =>
      have hok := h.stage_ok hpc
      exact h.gotoStage hpc rfl hok
  | pendingDone hpc =>
      exact h.gotoTask (by rw [State.role, hpc]; rfl) (by rw [State.out, hpc]; rfl)
        (h.claims c _ _ (by simp [State.mentions, hpc, Pc.mentions]))

theorem Inv.wakeQueued (h : Inv M s) (hpc : s.pc c = .wake q .runnable)
    (hfree : s.rqFree (s.cpu q) = true) (hrq : s.onRq q = .queued) :
    Inv M (((s.setTaskState q taskRunning).setPi q none).goto c .task) := by
  have hset : Inv M (s.setTaskState q taskRunning) := by
    refine h.setQueuedState hrq (.inr rfl) (by decide) (by decide) fun d k hmem hok ↦ ?_
    -- `__schedule` reads the state under the lock that the waker has here
    refine Mention.ok_wakeQueued hrq (fun preempt prevState hk hcpu ↦ ?_) hok
    have hlock := (mention_cases hmem).2.2.2 preempt prevState hk
    have hcpu : s.cpu q = d := hcpu
    simp [State.rqFree, hcpu, hlock] at hfree
  have hpc' : (s.setTaskState q taskRunning).pc c = .wake q .runnable := hpc
  exact hset.unlock hpc' (by rw [State.role, hpc']; rfl)

theorem Inv.countIowait (h : Inv M s) (hpc : s.pc c = .schedDeactivated) :
    Inv M (s.goto c .schedPick) := by
  obtain ⟨hon, hcpu, hno, -⟩ := h.claims c (s.curr c) .currOff
    (by simp [State.mentions, hpc, Pc.mentions])
  refine h.goto (by rw [State.role, hpc]; rfl) (by rw [State.out, hpc]; rfl) fun p k hmem ↦ ?_
  obtain ⟨rfl, rfl⟩ := Prod.mk.inj (List.mem_singleton.mp hmem)
  exact ⟨hon, hcpu, by simp [hno], fun _ ↦ hno⟩

/-- Every move keeps the outline. -/
theorem Inv.of_move (h : Inv M s) (hm : Move M s l s') : Inv M s' := by
  cases hm with
  | quiet c pc hquiet => exact h.of_quiet hquiet
  | setState c x hpc halive hidle hx =>
      rcases hx with hx | ⟨rfl, hpi⟩
      · exact h.setOwnState hpc hidle (.inr hx) hx.2.1 hx.2.2
      · exact h.setOwnState hpc hidle (.inl hpi) (by decide) (by decide)
  | setIowait c b hpc => exact h.congr rfl rfl rfl rfl rfl rfl
  | setFrozen c b hpc => exact h.congr rfl rfl rfl rfl rfl rfl
  | signal c hpc hdead => exact h.signal hpc hdead
  | sleep c hpc hne => exact (h.sleep hpc hne).congr rfl rfl rfl rfl rfl rfl
  | countIowait c hpc => exact (h.countIowait hpc).congr rfl rfl rfl rfl rfl rfl
  | switch c next hpc hne hnext => exact h.switch hpc hne hnext
  | finish c hpc => exact h.finish hpc
  | put c hpc =>
      have hgoto := h.gotoTask (c := c) (by rw [State.role, hpc]; rfl)
        (by rw [State.out, hpc]; rfl)
        (h.claims c _ _ (by simp [State.mentions, hpc, Pc.mentions]))
      exact hgoto.congr rfl rfl rfl rfl rfl rfl
  | wake c p hpc hpi hearly => exact h.wakeStart hpc hpi hearly
  | wakeQueued c hpc hfree hrq => exact h.wakeQueued hpc hfree hrq
  | setWaking c hpc => exact h.setWaking hpc
  | setCpu c dest hpc => exact (h.setCpu hpc dest true).congr rfl rfl rfl rfl rfl rfl
  | push c migrated hpc hstage =>
      refine h.push hpc ?_ _
      rw [State.role, hpc]
      rcases hstage with ⟨rfl, -⟩ | rfl <;> rfl
  | activate c hpc => exact (h.activate hpc).congr rfl rfl rfl rfl rfl rfl
  | takeList c hpc => exact h.takeList hpc
  | activatePending c hpc => exact (h.activatePending hpc).congr rfl rfl rfl rfl rfl rfl
  | moveOut c dest piLocked hpc hmem hfree hpi => exact h.moveOut hpc hmem hfree hpi
  | moveIn c hpc => exact h.moveIn hpc
  | bear c dest hpc hpi hnew => exact h.bear hpc hpi hnew dest
  | borne c hpc => exact h.borne hpc

theorem Inv.step (h : Inv M s) (l : Label P C) : Inv M (step M s l) := by
  unfold Wakeup.step
  cases hs : Wakeup.next M s l with
  | none => exact h
  | some s' => exact h.of_move (h.move hs)

omit [DecidableEq P] [DecidableEq C] in
theorem inv_init (boot : C) : Inv M (State.init M boot) := by
  have hrole : ∀ d, (State.init M boot).role d = {} := fun _ ↦ rfl
  refine ⟨?_, fun p ↦ ?_, fun _ ↦ List.nodup_nil, fun _ ↦ List.nodup_nil, ?_⟩
  · intro d p k hmem
    obtain ⟨rfl, rfl⟩ := Prod.mk.inj (List.mem_singleton.mp hmem)
    have hidle : M.idleOf (M.idle d) = some d := (M.idleOf_eq_some _ _).mpr rfl
    simp [Mention.Ok, State.view, State.init, hidle]
  · constructor <;> try simp only [hrole]
    · intro hx
      cases hidle : M.idleOf p <;> simp_all [State.init]
    · intro c hidle
      simp [State.init, hidle]
    · intro c
      cases hidle : M.idleOf p <;> simp [State.init, hidle]
    · intro hon
      obtain ⟨c, hidle⟩ := Option.isSome_iff_exists.mp hon
      left
      simpa [State.init, hidle] using (M.idleOf_eq_some p c).mp hidle
    · simp [State.init]
    · simp [State.init]
    · simp [State.init]
    · intro hx
      cases hidle : M.idleOf p <;> simp_all [State.init]
    · intro hx
      cases hidle : M.idleOf p <;> simp_all [State.init]
    · intro hx
      cases hidle : M.idleOf p <;> simp_all [State.init]
    · simp
  · simp [State.out, State.init, Pc.out]

/-- The outline holds in every state of every run. -/
theorem inv_run (boot : C) (ls : List (Label P C)) :
    AllStates (step M) (Inv M) (State.init M boot) ls :=
  allStates_of_step (fun _ l h ↦ h.step l) (inv_init boot) ls

/-- An invariant that every move keeps, with the outline at hand. -/
theorem allStates_of_move {Q : State P C → Prop} {boot : C} (hinit : Q (State.init M boot))
    (hmove : ∀ s s' l, Inv M s → Q s → Move M s l s' → Q s') (ls : List (Label P C)) :
    AllStates (step M) (fun s ↦ Inv M s ∧ Q s) (State.init M boot) ls := by
  refine allStates_of_step (fun s l h ↦ ⟨h.1.step l, ?_⟩) ⟨inv_init boot, hinit⟩ ls
  unfold Wakeup.step
  cases hs : Wakeup.next M s l with
  | none => exact h.2
  | some s' => exact hmove s s' l h.1 h.2 (h.1.move hs)

theorem allStates_of_inv {Q : State P C → Prop} (hQ : ∀ s, Inv M s → Q s) (boot : C)
    (ls : List (Label P C)) : AllStates (step M) Q (State.init M boot) ls :=
  (inv_run boot ls).imp hQ

/-! ## One place for each task -/

/-- A run queue lists, each once, exactly the tasks that `on_rq` and `task_cpu` put there,
the idle tasks excepted, which are never enqueued. -/
theorem runQueues_exact (boot : C) (ls : List (Label P C)) :
    AllStates (step M) (fun s ↦ (∀ c, (s.queue c).Nodup) ∧
      ∀ p c, p ∈ s.queue c ↔ s.onRq p = .queued ∧ s.cpu p = c ∧ M.idleOf p = none)
      (State.init M boot) ls :=
  allStates_of_inv (fun _ h ↦ ⟨h.queue_nodup, fun p ↦ (h.task p).mem_queue⟩) boot ls

/-- `p->on_cpu` is set exactly while some CPU uses the task, and then only one does. -/
theorem onCpu_exact (boot : C) (ls : List (Label P C)) :
    AllStates (step M) (fun s ↦ ∀ p, (s.onCpu p = true ↔ ∃ c, s.Uses c p) ∧
      ∀ c d, s.Uses c p → s.Uses d p → c = d) (State.init M boot) ls := by
  refine allStates_of_inv
    (fun s h p ↦ ⟨⟨fun hon ↦ ⟨s.cpu p, (h.task p).owned hon⟩, ?_⟩, ?_⟩) boot ls
  · rintro ⟨c, hc⟩
    exact (h.uses_owned hc).1
  · intro c d hc hd
    exact (h.uses_owned hc).2.symm.trans (h.uses_owned hd).2

/-! ## A wakeup is neither lost nor duplicated -/

/-- A task is in `TASK_WAKING` exactly while one waker, one wake list or one run of
`sched_ttwu_pending` has it, and no two of them have it at once. -/
theorem waking_in_one_hand (boot : C) (ls : List (Label P C)) :
    AllStates (step M) (fun s ↦ ∀ p, (s.state p = taskWaking ↔ ∃ hand : Hand C, hand.Holds s p) ∧
      ∀ hand hand' : Hand C, hand.Holds s p → hand'.Holds s p → hand = hand')
      (State.init M boot) ls := by
  refine allStates_of_inv (fun s h p ↦ ⟨⟨fun hwak ↦ ?_, ?_⟩, fun _ _ ↦ h.hand_unique⟩) boot ls
  · rcases (h.task p).carried hwak with ⟨c, hc⟩ | hc | hc
    · exact ⟨.waker c, hc⟩
    · exact ⟨.wakeList _, hc⟩
    · exact ⟨.pending _, hc⟩
  · rintro ⟨hand, hp⟩
    exact h.waking_of_holds hp

/-! ## The warnings -/

/-- None of the warnings of the wakeup path is ever printed: a task that
`sched_ttwu_pending` takes from its list owns no CPU and belongs to this one, and a
task is never queued on the wake list of the waker's own CPU. A waker that spins on
`p->on_cpu` waits for a CPU that is leaving `p` in `__schedule`. -/
theorem warnings_never_fire (boot : C) (ls : List (Label P C)) :
    AllStates (step M) (fun s ↦ ∀ c p,
      (∀ rest, s.pc c = .pending (p :: rest) → s.onCpu p = false ∧ s.cpu p = c) ∧
      (∀ active, s.pc c = .wake p .onCpu →
        s.ttwuQueueCond M c (s.cpu p) active true = true → s.cpu p ≠ c) ∧
      (∀ migrated active, s.pc c = .wake p (.queue migrated) →
        s.ttwuQueueCond M c (s.cpu p) active false = true → s.cpu p ≠ c) ∧
      (s.pc c = .wake p .spin → s.onCpu p = true → (s.pc (s.cpu p)).leaving = true))
      (State.init M boot) ls := by
  refine allStates_of_inv (fun s h c p ↦ ⟨?_, ?_, ?_, ?_⟩) boot ls
  · intro rest hpc
    have hok := h.claims c p .pending (by simp [State.mentions, hpc, Pc.mentions])
    exact ⟨hok.2.2.2, hok.2.2.1⟩
  · intro _ hpc _
    exact (h.stage_ok hpc).2.2
  · rintro migrated active - hcond hcpu
    rw [hcpu, ttwuQueueCond_self] at hcond
    simp at hcond
  · intro hpc hon
    exact h.leaving_of_onCpu (h.stage_ok hpc).1 hon

end NcuKernel.Wakeup
