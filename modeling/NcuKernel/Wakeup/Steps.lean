import NcuKernel.Wakeup.Outline

/-!
# What each step does to the outline

One lemma for each step that changes a task: its own claims at the new program
point, the claims of the other CPUs on the task it changes, and what is known of
that task afterwards. Every other task is covered by the frame lemma.
-/

namespace NcuKernel.Wakeup

open Function

variable {P C : Type*} {M : Machine P C} {s s' : State P C} {c d : C} {p q : P}
  {k : Mention C} {x : TaskState} {pc : Pc P C}

/-! ## Claims and the CPUs that make them -/

/-- What a claim says about the CPU that makes it. -/
theorem mention_cases (hk : (q, k) ∈ s.mentions d) :
    (k.underPi = true → (s.role d).pi = some q) ∧ (k.onList = true → q ∈ (s.role d).list) ∧
    (∀ dest, k = .moved dest → (s.role d).moving = some q) ∧
    (∀ preempt prevState, k = .currRead preempt prevState → (s.pc d).locksRq = true) := by
  unfold State.mentions at hk
  unfold State.role
  cases hpc : s.pc d with
  | wake p stage =>
      cases stage <;> simp_all [Pc.mentions, WakeStage.mention] <;>
        rcases hk with ⟨rfl, rfl⟩ | ⟨rfl, rfl⟩ <;> simp [Mention.underPi, Mention.onList, Pc.role]
  | schedPut prev dead =>
      cases dead <;> simp_all [Pc.mentions]
      all_goals grind [Mention.underPi, Mention.onList]
  | pending list =>
      simp_all [Pc.mentions]
      rcases hk with ⟨rfl, rfl⟩ | ⟨hmem, rfl⟩ <;>
        simp_all [Mention.underPi, Mention.onList, Pc.role]
  | _ =>
      simp_all [Pc.mentions]
      try rcases hk with ⟨rfl, rfl⟩ | ⟨rfl, rfl⟩
      all_goals simp_all [Mention.underPi, Mention.onList, Pc.role, Pc.locksRq]

/-- What a CPU has in its hands, it makes a claim about. -/
theorem mention_of_role (r : P) :
    ((s.role c).carried = some r →
      ∃ k, (r, k) ∈ s.mentions c ∧ ∀ v, k.Ok c v → Mention.waking.Ok c v) ∧
    (r ∈ (s.role c).list → (r, Mention.pending) ∈ s.mentions c) ∧
    ((s.role c).bearing = some r → (r, Mention.born) ∈ s.mentions c) ∧
    ((s.role c).moving = some r → ∃ dest, (r, Mention.moved dest) ∈ s.mentions c) := by
  unfold State.role State.mentions
  cases s.pc c with
  | wake p stage =>
      cases stage <;> simp [Pc.role, Pc.mentions, WakeStage.mention]
      all_goals
        rintro rfl
        exact ⟨_, .inr ⟨rfl, rfl⟩, fun v hv ↦ ⟨hv.1, by simp_all [Mention.Ok]⟩⟩
  | _ => simp_all [Pc.role, Pc.mentions]

theorem mem_curr_cons {curr : P} {l : List (P × Mention C)}
    (h : (p, k) ∈ (curr, Mention.curr) :: l) : (p = curr ∧ k = .curr) ∨ (p, k) ∈ l := by
  simpa using h

theorem Inv.not_underPi (h : Inv M s) (hk : (q, k) ∈ s.mentions d) (hpi : s.piLock q ≠ some d) :
    k.underPi = false := by
  by_contra hne
  exact hpi (((h.task q).pi d).mp ((mention_cases hk).1 (by simpa using hne)))

theorem Inv.not_onList (h : Inv M s) (hk : (q, k) ∈ s.mentions d) (hpi : s.piLock q ≠ none) :
    k.onList = false := by
  by_contra hne
  exact hpi ((h.task q).listed_pi d (.inr ((mention_cases hk).2.1 (by simpa using hne))))

/-- A task whose lock is taken is on no list. -/
theorem Inv.not_listed_of_pi (h : Inv M s) (hpi : s.piLock q ≠ none) (d : C) :
    q ∉ s.wakeList d ∧ q ∉ (s.role d).list :=
  ⟨fun hd ↦ hpi ((h.task q).listed_pi d (.inl hd)),
    fun hd ↦ hpi ((h.task q).listed_pi d (.inr hd))⟩

/-- A task on a list is off the run queues and in the hands of nobody else. -/
theorem Inv.listed (h : Inv M s) (hp : p ∈ s.wakeList c ∨ p ∈ (s.role c).list) :
    Mention.listed.Ok c (s.view p) := by
  rcases hp with hp | hp
  · exact (h.task p).wakeList c hp
  · obtain ⟨hno, hwak, hcpu, -⟩ := h.claims c p _ ((mention_of_role p).2.1 hp)
    exact ⟨hno, hwak, hcpu⟩

/-- A task that is being woken is on no run queue. -/
theorem Inv.waking_off (h : Inv M s) (hp : s.state p = taskWaking) : s.onRq p = .no := by
  rcases (h.task p).carried hp with ⟨c, hc⟩ | hc
  · obtain ⟨k, hk, hok⟩ := (mention_of_role p).1 hc
    exact (hok _ (h.claims c p k hk)).1
  · exact (h.listed hc).1

theorem TaskInv.not_idle (ht : TaskInv M s q) (hrq : s.onRq q ≠ .queued) : M.idleOf q = none := by
  by_contra hne
  obtain ⟨d, hd⟩ := Option.ne_none_iff_exists'.mp hne
  exact hrq (ht.idle d hd).2.1

theorem Inv.onCpu_eq_false (h : Inv M s) (hout : s.out (s.cpu p) ≠ some p)
    (hcur : s.curr (s.cpu p) ≠ p) : s.onCpu p = false := by
  by_contra hbusy
  rcases (h.task p).owned (by simpa using hbusy) with hc | hc
  · exact hcur hc
  · exact hout hc

theorem Inv.read_ok (h : Inv M s) {preempt : Bool} {prevState : TaskState}
    (hpc : s.pc c = .schedRead preempt prevState) :
    (Mention.currRead preempt prevState).Ok c (s.view (s.curr c)) :=
  h.claims c _ _ (by simp [State.mentions, hpc, Pc.mentions])

theorem Inv.curr_ok_of_task (h : Inv M s) (hpc : s.pc c = .task) :
    Mention.curr.Ok c (s.view (s.curr c)) :=
  h.claims c _ _ (by simp [State.mentions, hpc, Pc.mentions])

theorem Inv.stage_ok (h : Inv M s) {stage : WakeStage} (hpc : s.pc c = .wake q stage) :
    (stage.mention (C := C)).Ok c (s.view q) :=
  h.claims c q _ (by simp [State.mentions, hpc, Pc.mentions])

theorem Inv.curr_ok_of_wake (h : Inv M s) {stage : WakeStage} (hpc : s.pc c = .wake q stage) :
    Mention.curr.Ok c (s.view (s.curr c)) :=
  h.claims c _ _ (by simp [State.mentions, hpc, Pc.mentions])

/-- A task that owns a CPU while it is being woken owns another one than the waker's. -/
theorem Inv.remote_of_onCpu (h : Inv M s) {stage : WakeStage} (hpc : s.pc c = .wake q stage)
    (hno : s.onRq q = .no) (hon : s.onCpu q = true) : s.cpu q ≠ c := by
  rintro rfl
  rcases (h.task q).owned hon with hcur | hout
  · have hrq : s.onRq (s.curr (s.cpu q)) = .queued := (h.curr_ok_of_wake hpc).2.2
    rw [hcur, hno] at hrq
    simp at hrq
  · simp [State.out, hpc, Pc.out] at hout

/-! ## Frames -/

variable [DecidableEq C]

/-- A step of `c` that changes the fields of `q` only, and the claims it has to answer for. -/
theorem Inv.claims_of (h : Inv M s) (c : C) (q : P)
    (hview : ∀ p, p ≠ q → s'.view p = s.view p)
    (hother : ∀ d, d ≠ c → s'.mentions d = s.mentions d)
    (hq : ∀ d k, d ≠ c → (q, k) ∈ s.mentions d → k.Ok d (s.view q) → k.Ok d (s'.view q))
    (hc : ∀ p k, (p, k) ∈ s'.mentions c → k.Ok c (s'.view p)) :
    ∀ d p k, (p, k) ∈ s'.mentions d → k.Ok d (s'.view p) := by
  intro d p k hmem
  by_cases hd : d = c
  · subst hd
    exact hc p k hmem
  · rw [hother d hd] at hmem
    have hok := h.claims d p k hmem
    by_cases hp : p = q
    · subst hp
      exact hq d k hd hmem hok
    · rwa [hview p hp]

theorem role_of_pc (hpc : s'.pc = update s.pc c pc) (d : C) :
    s'.role d = if d = c then pc.role else s.role d := by
  by_cases hd : d = c <;> simp [State.role, hpc, hd]

theorem out_of_pc (hpc : s'.pc = update s.pc c pc) (d : C) :
    s'.out d = if d = c then pc.out else s.out d := by
  by_cases hd : d = c <;> simp [State.out, hpc, hd]

theorem Inv.lists_of (h : Inv M s) (hpc : s'.pc = update s.pc c pc)
    (hwake : s'.wakeList = s.wakeList) (hlist : pc.role.list = (s.role c).list) (d : C) :
    (s'.wakeList d ++ (s'.role d).list).Nodup := by
  rw [hwake, role_of_pc hpc]
  split
  · subst d
    rw [hlist]
    exact h.lists_nodup c
  · exact h.lists_nodup d

/-- Two roles say the same about `p`. -/
def Role.Agree (r r' : Role P) (p : P) : Prop :=
  (r'.pi = some p ↔ r.pi = some p) ∧ (p ∈ r'.list ↔ p ∈ r.list) ∧
    (r'.moving = some p ↔ r.moving = some p) ∧ (r'.carried = some p ↔ r.carried = some p) ∧
    (r'.bearing = some p ↔ r.bearing = some p)

/-- The program counter of `c` moves, and says the same about `p` as before. -/
theorem Same.of_pc (hpc : s'.pc = update s.pc c pc) (hview : s'.view p = s.view p)
    (hpiLock : s'.piLock p = s.piLock p) (hqueue : ∀ d, p ∈ s'.queue d ↔ p ∈ s.queue d)
    (hwake : ∀ d, p ∈ s'.wakeList d ↔ p ∈ s.wakeList d)
    (hcurr : s'.curr = s.curr) (hout : pc.out = s.out c)
    (hrole : (s.role c).Agree pc.role p) : Same s s' p := by
  have hagree : ∀ d, (s.role d).Agree (s'.role d) p := fun d ↦ by
    rw [role_of_pc hpc]
    split
    · subst d
      exact hrole
    · simp [Role.Agree]
  have hout' : ∀ d, s'.out d = s.out d := fun d ↦ by
    rw [out_of_pc hpc]
    split
    · subst d
      exact hout
    · rfl
  exact ⟨hview, hpiLock, hqueue, hwake, fun d ↦ by rw [hcurr], fun d ↦ by rw [hout' d],
    fun d ↦ (hagree d).1, fun d ↦ (hagree d).2.1, fun d ↦ (hagree d).2.2.1,
    fun d ↦ (hagree d).2.2.2.1, fun d ↦ (hagree d).2.2.2.2⟩

/-- Everything there is to show about a step of `c` that touches one task. -/
theorem Inv.touch (h : Inv M s) (c : C) (q : P) (hpc : s'.pc = update s.pc c pc)
    (hcurr : s'.curr = s.curr) (hout : pc.out = s.out c) (hsame : ∀ p, p ≠ q → Same s s' p)
    (hothers : ∀ d k, d ≠ c → (q, k) ∈ s.mentions d → k.Ok d (s.view q) → k.Ok d (s'.view q))
    (hown : ∀ p k, (p, k) ∈ pc.mentions (s.curr c) → k.Ok c (s'.view p))
    (htask : TaskInv M s' q) (hqueue : ∀ d, (s'.queue d).Nodup)
    (hlists : ∀ d, (s'.wakeList d ++ (s'.role d).list).Nodup) : Inv M s' where
  claims := by
    refine h.claims_of c q (fun p hp ↦ (hsame p hp).view) (fun d hd ↦ ?_) hothers fun p k hmem ↦ ?_
    · simp [State.mentions, hpc, hcurr, hd]
    · exact hown p k (by simpa [State.mentions, hpc, hcurr] using hmem)
  task p := by
    by_cases hp : p = q
    · exact hp ▸ htask
    · exact (h.task p).frame (hsame p hp)
  queue_nodup := hqueue
  lists_nodup := hlists
  out_ne d p hp := by
    rw [hcurr]
    refine h.out_ne d p ?_
    rw [out_of_pc hpc] at hp
    split at hp
    · subst d
      exact hout ▸ hp
    · exact hp

omit [DecidableEq C] in
/-- The counters are of no concern here. -/
theorem Inv.congr (h : Inv M s) (hview : s'.view = s.view) (hpi : s'.piLock = s.piLock)
    (hqueue : s'.queue = s.queue) (hwake : s'.wakeList = s.wakeList) (hcurr : s'.curr = s.curr)
    (hpc : s'.pc = s.pc) : Inv M s' := by
  have hrole : s'.role = s.role := by funext d; simp only [State.role, hpc]
  have hout : s'.out = s.out := by funext d; simp only [State.out, hpc]
  refine ⟨?_, fun p ↦ (h.task p).frame ?_, hqueue ▸ h.queue_nodup, ?_, ?_⟩
  · intro d p k hmem
    rw [hview]
    exact h.claims d p k (by simpa only [State.mentions, hpc, hcurr] using hmem)
  · constructor <;> simp only [hview, hpi, hqueue, hwake, hcurr, hrole, hout, implies_true]
  · simp only [hwake, hrole]
    exact h.lists_nodup
  · simp only [hout, hcurr]
    exact h.out_ne

/-- A CPU moves on without touching a task. -/
theorem Inv.goto [DecidableEq P] (h : Inv M s) (hrole : pc.role = s.role c)
    (hout : pc.out = s.out c)
    (hc : ∀ p k, (p, k) ∈ pc.mentions (s.curr c) → k.Ok c (s.view p)) :
    Inv M (s.goto c pc) := by
  have hsame : ∀ p, Same s (s.goto c pc) p := fun p ↦
    Same.of_pc rfl rfl rfl (fun _ ↦ .rfl) (fun _ ↦ .rfl) rfl hout (by simp [hrole, Role.Agree])
  exact h.touch c (s.curr c) rfl rfl hout (fun p _ ↦ hsame p) (fun _ _ _ _ hok ↦ hok) hc
    ((h.task _).frame (hsame _)) h.queue_nodup (h.lists_of rfl rfl (by rw [hrole]))

variable [DecidableEq P]

/-! ## Run queues -/

theorem mem_queue_activate :
    p ∈ (s.activateTask c q).queue d ↔ p ∈ s.queue d ∨ p = q ∧ d = c := by
  by_cases hd : d = c
  · subst hd
    simp [State.activateTask]
  · simp [State.activateTask, hd]

theorem nodup_queue_activate (h : ∀ d, (s.queue d).Nodup) (hq : q ∉ s.queue c) (d : C) :
    ((s.activateTask c q).queue d).Nodup := by
  by_cases hd : d = c
  · subst hd
    simpa [State.activateTask, List.nodup_append] using ⟨h d, fun a ha haq ↦ hq (haq ▸ ha)⟩
  · simpa [State.activateTask, hd] using h d

theorem mem_queue_deactivate (h : ∀ d, (s.queue d).Nodup) (b : Bool) :
    p ∈ (s.deactivateTask c q b).queue d ↔ p ∈ s.queue d ∧ ¬(p = q ∧ d = c) := by
  by_cases hd : d = c
  · subst hd
    simp [State.deactivateTask, (h d).mem_erase_iff, and_comm]
  · simp [State.deactivateTask, hd]

theorem nodup_queue_deactivate (h : ∀ d, (s.queue d).Nodup) (b : Bool) (d : C) :
    ((s.deactivateTask c q b).queue d).Nodup := by
  by_cases hd : d = c
  · subst hd
    simpa [State.deactivateTask] using (h d).erase q
  · simpa [State.deactivateTask, hd] using h d

/-! ## Steps of the running task -/

omit [DecidableEq C] in
/-- A queued task gets a new state; the program counters stay. -/
theorem Inv.setQueuedState (h : Inv M s) (hrq : s.onRq q = .queued)
    (hidle : M.idleOf q = none ∨ x = taskRunning) (hwaking : x ≠ taskWaking) (hnew : x ≠ taskNew)
    (hclaims : ∀ d k, (q, k) ∈ s.mentions d → k.Ok d (s.view q) →
      k.Ok d { s.view q with state := x }) :
    Inv M (s.setTaskState q x) := by
  have hview : ∀ p, p ≠ q → (s.setTaskState q x).view p = s.view p := fun p hp ↦ by
    simp [State.view, State.setTaskState, hp]
  have hself : (s.setTaskState q x).view q = { s.view q with state := x } := by
    simp [State.view, State.setTaskState]
  have hstate : (s.setTaskState q x).state q = x := by simp [State.setTaskState]
  refine { h with claims := ?_, task := fun p ↦ ?_ }
  · intro d p k hmem
    have hok := h.claims d p k hmem
    by_cases hp : p = q
    · subst hp
      rw [hself]
      exact hclaims d k hmem hok
    · rwa [hview p hp]
  · by_cases hp : p = q
    · subst hp
      have ht := h.task p
      refine { ht with unborn := ?_, idle := ?_, wakeList := ?_, carried := ?_, running := ?_ }
      · exact fun hx ↦ absurd (hstate.symm.trans hx) hnew
      · rcases hidle with hidle | hx
        · exact fun d hd ↦ absurd (hidle.symm.trans hd) (by simp)
        · exact fun d hd ↦ ⟨hstate.trans hx, (ht.idle d hd).2⟩
      · exact fun d hd ↦ absurd (hrq.symm.trans (ht.wakeList d hd).1) (by simp)
      · exact fun hx ↦ absurd (hstate.symm.trans hx) hwaking
      · exact fun _ hno ↦ absurd (hrq.symm.trans hno) (by simp)
    · exact (h.task p).frame ⟨hview p hp, rfl, fun _ ↦ .rfl, fun _ ↦ .rfl, fun _ ↦ .rfl,
        fun _ ↦ .rfl, fun _ ↦ .rfl, fun _ ↦ .rfl, fun _ ↦ .rfl, fun _ ↦ .rfl, fun _ ↦ .rfl⟩

/-- The running task stores a state of its own, with or without its `pi_lock`. -/
theorem Inv.setOwnState (h : Inv M s) (hpc : s.pc c = .task)
    (hidle : M.idleOf (s.curr c) = none ∨ x = taskRunning)
    (hx : s.piLock (s.curr c) = none ∨ Settable x) (hwaking : x ≠ taskWaking)
    (hnew : x ≠ taskNew) : Inv M (s.setTaskState (s.curr c) x) := by
  have hcur := h.curr_ok_of_task hpc
  refine h.setQueuedState hcur.2.2 hidle hwaking hnew fun d k hmem hok ↦ ?_
  by_cases hd : d = c
  · subst hd
    simp only [State.mentions, hpc, Pc.mentions, List.mem_singleton, Prod.mk.injEq,
      true_and] at hmem
    subst hmem
    exact hcur
  · refine Mention.ok_setState hcur hd (hx.imp (fun hnone ↦ ?_) id) hok
    exact h.not_underPi hmem (by simp [hnone])

/-! ## Steps of `__schedule` -/

theorem Inv.gotoTask (h : Inv M s) (hrole : s.role c = {}) (hout : s.out c = none)
    (hcur : Mention.curr.Ok c (s.view (s.curr c))) : Inv M (s.goto c .task) := by
  refine h.goto (by rw [hrole]; rfl) (by rw [hout]; rfl) fun p k hmem ↦ ?_
  obtain ⟨rfl, rfl⟩ := Prod.mk.inj (List.mem_singleton.mp hmem)
  exact hcur

/-- A pending signal keeps `prev` on the run queue. -/
theorem Inv.signal (h : Inv M s) {preempt : Bool} {prevState : TaskState}
    (hpc : s.pc c = .schedRead preempt prevState) (hdead : prevState ≠ taskDead) :
    Inv M ((s.setTaskState (s.curr c) taskRunning).goto c .schedPick) := by
  obtain ⟨hon, hcpu, hrq, hst, -⟩ := h.read_ok hpc
  have hgoto : Inv M (s.goto c .schedPick) := by
    refine h.goto (by rw [State.role, hpc]; rfl) (by rw [State.out, hpc]; rfl) fun p k hmem ↦ ?_
    obtain ⟨rfl, rfl⟩ := Prod.mk.inj (List.mem_singleton.mp hmem)
    exact ⟨hon, hcpu, by simp [hrq], fun hd ↦ absurd (hst.symm.trans hd) hdead⟩
  refine hgoto.setQueuedState (q := s.curr c) hrq (.inr rfl) (by decide) (by decide)
    fun d k hmem hok ↦ ?_
  by_cases hd : d = c
  · subst hd
    simp only [State.mentions, State.goto, update_self, Pc.mentions, List.mem_singleton,
      Prod.mk.injEq, true_and] at hmem
    subst hmem
    exact ⟨hon, hcpu, hok.2.2.1, by simp⟩
  · exact Mention.ok_setState ⟨hon, hcpu, hrq⟩ hd (.inr (by decide)) hok

/-- `prev` leaves the run queue. -/
theorem Inv.sleep (h : Inv M s) {preempt : Bool} {prevState : TaskState}
    (hpc : s.pc c = .schedRead preempt prevState) (hstate : prevState ≠ taskRunning) :
    Inv M ((s.deactivateTask c (s.curr c) true).goto c .schedDeactivated) := by
  obtain ⟨hon, hcpu, hrq, hst, -⟩ := h.read_ok hpc
  have hrole : s.role c = {} := by rw [State.role, hpc]; rfl
  have hof : s.out c = none := by rw [State.out, hpc]; rfl
  have ht := h.task (s.curr c)
  set s' := (s.deactivateTask c (s.curr c) true).goto c .schedDeactivated with hs'
  have hsame : ∀ d, s'.role d = s.role d := fun d ↦ by
    rw [role_of_pc (s := s) rfl d]
    split <;> simp_all [Pc.role]
  have hout : s'.out = s.out := funext fun d ↦ by
    rw [out_of_pc (s := s) rfl d]
    split <;> simp_all [Pc.out]
  have hself : s'.view (s.curr c) = { s.view (s.curr c) with onRq := .no } := by
    simp [hs', State.view, State.goto, State.deactivateTask]
  have hno : s'.onRq (s.curr c) = .no := congrArg View.onRq hself
  refine h.touch c (s.curr c) rfl rfl (by rw [hof]; rfl) (fun p hp ↦ ?_) (fun d k hd _ hok ↦ ?_)
    (fun p k hmem ↦ ?_) ?_ (nodup_queue_deactivate h.queue_nodup true)
    (h.lists_of rfl rfl (by rw [hrole]; rfl))
  · refine Same.of_pc rfl ?_ rfl (fun d ↦ ?_) (fun _ ↦ .rfl) rfl (by rw [hof]; rfl)
      (by simp [hrole, Pc.role, Role.Agree])
    · simp [hs', State.view, State.goto, State.deactivateTask, hp]
    · exact (mem_queue_deactivate h.queue_nodup true).trans (by simp [hp])
  · rw [hself]
    exact Mention.ok_sleep ⟨hon, hcpu, hrq⟩ hd hok
  · obtain ⟨rfl, rfl⟩ := Prod.mk.inj (List.mem_singleton.mp hmem)
    rw [hself]
    exact ⟨hon, hcpu, rfl, fun hr ↦ hstate (hst.symm.trans hr)⟩
  · constructor <;> try simp only [hsame, hout]
    · exact fun hx ↦ absurd ((ht.unborn hx).1.symm.trans hrq) (by simp)
    · exact fun d hd ↦ absurd (hst.symm.trans (ht.idle d hd).1) hstate
    · intro d
      rw [hno]
      refine (mem_queue_deactivate h.queue_nodup true).trans ?_
      have hmem := ht.mem_queue d
      have hcpu : s.cpu (s.curr c) = c := hcpu
      simp only [true_and, reduceCtorEq, false_and, iff_false, not_and, not_not]
      exact fun hd ↦ (hmem.mp hd).2.1.symm.trans hcpu
    · exact ht.owned
    · exact ht.pi
    · exact fun d hd ↦ absurd (hrq.symm.trans (ht.wakeList d hd).1) (by simp)
    · exact ht.listed_pi
    · exact fun hx ↦ absurd (hrq.symm.trans (h.waking_off hx)) (by simp)
    · exact fun hx ↦ absurd (hst.symm.trans hx) hstate
    · exact fun hx ↦ absurd (hno.symm.trans hx) (by simp)
    · exact ht.moving_unique

theorem Inv.switch (h : Inv M s) {next : P} (hpc : s.pc c = .schedPick) (hne : s.curr c ≠ next)
    (hnext : next ∈ s.queue c ∨ next = M.idle c) :
    Inv M { s with
      curr := update s.curr c next
      onCpu := update s.onCpu next true
      pc := update s.pc c (.schedSwitched (s.curr c)) } := by
  obtain ⟨hon, hcpu, hmig, hdead⟩ := h.claims c (s.curr c) .prev
    (by simp [State.mentions, hpc, Pc.mentions])
  have hof : s.out c = none := by rw [State.out, hpc]; rfl
  have hrole : s.role c = {} := by rw [State.role, hpc]; rfl
  obtain ⟨hrq, hncpu⟩ : s.onRq next = .queued ∧ s.cpu next = c := by
    rcases hnext with hmem | rfl
    · exact ⟨(((h.task next).mem_queue c).mp hmem).1, (((h.task next).mem_queue c).mp hmem).2.1⟩
    · exact ((h.task _).idle c ((M.idleOf_eq_some _ _).mpr rfl)).2
  -- a task in this queue that owned a CPU would own this one, which `prev` does
  have hfree : s.onCpu next = false :=
    h.onCpu_eq_false (by simp [hncpu, hof]) (by simpa [hncpu] using hne)
  set s' : State P C := { s with
    curr := update s.curr c next
    onCpu := update s.onCpu next true
    pc := update s.pc c (.schedSwitched (s.curr c)) } with hs'
  have hsame : ∀ d, s'.role d = s.role d := fun d ↦ by
    rw [role_of_pc (s := s) rfl d]
    split <;> simp_all [Pc.role]
  have hout := out_of_pc (s := s) (c := c) (show s'.pc = _ from rfl)
  have hself : s'.view next = { s.view next with onCpu := true } := by simp [hs', State.view]
  have hview : ∀ p, p ≠ next → s'.view p = s.view p := fun p hp ↦ by simp [hs', State.view, hp]
  refine ⟨?_, fun p ↦ ?_, h.queue_nodup, fun d ↦ by rw [hsame]; exact h.lists_nodup d, ?_⟩
  · refine h.claims_of c next hview (fun d hd ↦ ?_) (fun d k _ _ hok ↦ ?_) fun p k hmem ↦ ?_
    · simp [hs', State.mentions, hd]
    · rw [hself]
      exact Mention.ok_takeCpu hrq hfree hok
    · simp only [hs', State.mentions, update_self, Pc.mentions] at hmem
      rcases mem_curr_cons hmem with ⟨rfl, rfl⟩ | hmem
      · rw [hself]
        exact ⟨rfl, hncpu, hrq⟩
      · obtain ⟨rfl, rfl⟩ := Prod.mk.inj (List.mem_singleton.mp hmem)
        rw [hview _ hne]
        exact ⟨hon, hcpu, hmig, hdead⟩
  · have ht := h.task p
    refine { ht with unborn := ?_, owned := ?_, pi := ?_, wakeList := ?_, listed_pi := ?_,
                     carried := ?_, running := ?_, moving := ?_, moving_unique := ?_ }
    all_goals try simp only [hsame, hout, Pc.out]
    · intro hx
      have hp : p ≠ next := by
        rintro rfl
        exact absurd ((ht.unborn hx).1.symm.trans hrq) (by simp)
      simpa [hs', hp] using ht.unborn hx
    · -- `next` is the new `curr`, and `prev` is on its way out
      have howned := ht.owned
      simp only [hs']
      grind
    · exact ht.pi
    · intro d hd
      have hok := ht.wakeList d hd
      have hp : p ≠ next := by
        rintro rfl
        exact absurd (hrq.symm.trans hok.1) (by simp)
      rwa [hview p hp]
    · exact ht.listed_pi
    · exact ht.carried
    · exact ht.running
    · exact ht.moving
    · exact ht.moving_unique
  · have hne' := h.out_ne
    simp only [hout, Pc.out]
    simp only [hs']
    grind

/-- `finish_task`: `prev` gives up the CPU. -/
theorem Inv.finish (h : Inv M s) {prev : P} {dead : Bool}
    (hpc : s.pc c = .schedFinish prev dead) :
    Inv M ({ s with onCpu := update s.onCpu prev false }.goto c (.schedPut prev dead)) := by
  obtain ⟨hon, hcpu, hmig, hdead, hread⟩ := h.claims c prev (.prevRead dead)
    (by simp [State.mentions, hpc, Pc.mentions])
  have hcur := h.claims c (s.curr c) .curr (by simp [State.mentions, hpc, Pc.mentions])
  have hof : s.out c = some prev := by rw [State.out, hpc]; rfl
  have hne : prev ≠ s.curr c := h.out_ne c prev hof
  have hrole : s.role c = {} := by rw [State.role, hpc]; rfl
  set s' := { s with onCpu := update s.onCpu prev false }.goto c (.schedPut prev dead) with hs'
  have hsame : ∀ d, s'.role d = s.role d := fun d ↦ by
    rw [role_of_pc (s := s) rfl d]
    split <;> simp_all [Pc.role]
  have hout := out_of_pc (s := s) (c := c) (show s'.pc = _ from rfl)
  have hself : s'.view prev = { s.view prev with onCpu := false } := by
    simp [hs', State.view, State.goto]
  have hview : ∀ p, p ≠ prev → s'.view p = s.view p := fun p hp ↦ by
    simp [hs', State.view, State.goto, hp]
  refine ⟨?_, fun p ↦ ?_, h.queue_nodup, fun d ↦ by rw [hsame]; exact h.lists_nodup d, ?_⟩
  · refine h.claims_of c prev hview (fun d hd ↦ ?_) (fun d k hd _ hok ↦ ?_) fun p k hmem ↦ ?_
    · simp [hs', State.mentions, State.goto, hd]
    · rw [hself]
      exact Mention.ok_releaseCpu ⟨hon, hcpu, hmig, hdead⟩ hd hok
    · simp only [hs', State.mentions, State.goto, update_self, Pc.mentions] at hmem
      rcases mem_curr_cons hmem with ⟨rfl, rfl⟩ | hmem
      · rw [hview _ hne.symm]
        exact hcur
      · split at hmem
        · obtain ⟨rfl, rfl⟩ := Prod.mk.inj (List.mem_singleton.mp hmem)
          have hst := hread.mp ‹_›
          rw [hself]
          exact ⟨rfl, hdead hst, hst⟩
        · simp at hmem
  · have ht := h.task p
    refine { ht with unborn := ?_, owned := ?_, pi := ?_, wakeList := ?_, listed_pi := ?_,
                     carried := ?_, running := ?_, moving := ?_, moving_unique := ?_ }
    all_goals try simp only [hsame, hout, Pc.out]
    · intro hx
      obtain ⟨hno, hfree⟩ := ht.unborn hx
      refine ⟨hno, ?_⟩
      simp only [hs', State.goto, update_apply]
      split
      · rfl
      · exact hfree
    · have howned := ht.owned
      have hcpu : s.cpu prev = c := hcpu
      simp only [hs', State.goto]
      grind
    · exact ht.pi
    · intro d hd
      have hok := ht.wakeList d hd
      by_cases hp : p = prev
      · subst hp
        rwa [hself]
      · rwa [hview p hp]
    · exact ht.listed_pi
    · exact ht.carried
    · exact ht.running
    · exact ht.moving
    · exact ht.moving_unique
  · have hne' := h.out_ne
    simp only [hout, Pc.out]
    simp only [hs', State.goto]
    grind

/-! ## Steps of `try_to_wake_up` -/

/-- The state matched, and the waker has the lock. -/
theorem Inv.wakeStart (h : Inv M s) (hpc : s.pc c = .task) (hpi : s.piLock q = none)
    (hstate : Mention.early.Ok c (s.view q)) :
    Inv M ((s.setPi q (some c)).goto c (.wake q .matched)) := by
  have hcur := h.curr_ok_of_task hpc
  have hrole : s.role c = {} := by rw [State.role, hpc]; rfl
  have hof : s.out c = none := by rw [State.out, hpc]; rfl
  have ht := h.task q
  set s' := (s.setPi q (some c)).goto c (.wake q .matched) with hs'
  have hrole' := role_of_pc (s := s) (c := c) (show s'.pc = _ from rfl)
  have hout' : s'.out = s.out := funext fun d ↦ by
    rw [out_of_pc (s := s) rfl d]
    split <;> simp_all [Pc.out]
  refine h.touch c q rfl rfl (by rw [hof]; rfl) (fun p hp ↦ ?_) (fun _ _ _ _ hok ↦ hok)
    (fun p k hmem ↦ ?_) ?_ h.queue_nodup (h.lists_of rfl rfl (by rw [hrole]; rfl))
  · refine Same.of_pc rfl rfl ?_ (fun _ ↦ .rfl) (fun _ ↦ .rfl) rfl (by rw [hof]; rfl)
      (by simp [hrole, Pc.role, Role.Agree, hp.symm])
    simp [hs', State.goto, State.setPi, hp]
  · rcases mem_curr_cons hmem with ⟨rfl, rfl⟩ | hmem
    · exact hcur
    · obtain ⟨rfl, rfl⟩ := Prod.mk.inj (List.mem_singleton.mp hmem)
      exact hstate
  · have hmoving : ∀ d, (s'.role d).moving = (s.role d).moving := fun d ↦ by
      rw [hrole']
      split <;> simp_all [Pc.role]
    have hbearing : ∀ d, (s'.role d).bearing = (s.role d).bearing := fun d ↦ by
      rw [hrole']
      split <;> simp_all [Pc.role]
    refine { ht with owned := ?_, pi := ?_, listed_pi := ?_, carried := ?_, running := ?_,
                     moving := ?_, moving_unique := ?_ }
    all_goals try simp only [hmoving, hbearing, hout']
    · exact ht.owned
    · have hpi' := ht.pi
      simp only [hrole', Pc.role]
      simp only [hs', State.goto, State.setPi]
      grind
    · -- a listed task is in `TASK_WAKING`, which no mask matches
      intro d hd
      rw [hrole'] at hd
      have hlisted : q ∈ s.wakeList d ∨ q ∈ (s.role d).list := by
        refine hd.imp id fun hd ↦ ?_
        split at hd
        · simp [Pc.role] at hd
        · exact hd
      exact absurd (h.listed hlisted).2.1 hstate.2.1
    · exact fun hx ↦ absurd hx hstate.2.1
    · exact ht.running
    · exact ht.moving
    · exact ht.moving_unique

/-- The waker leaves without having changed anything. -/
theorem Inv.unlock (h : Inv M s) {stage : WakeStage} (hpc : s.pc c = .wake q stage)
    (hcar : (s.role c).carried = none) : Inv M ((s.setPi q none).goto c .task) := by
  have hcur := h.curr_ok_of_wake hpc
  have hrole : s.role c = { pi := some q } := by
    revert hcar
    rw [State.role, hpc]
    cases stage <;> simp [Pc.role]
  have hof : s.out c = none := by rw [State.out, hpc]; rfl
  have ht := h.task q
  set s' := (s.setPi q none).goto c .task with hs'
  have hrole' := role_of_pc (s := s) (c := c) (show s'.pc = _ from rfl)
  have hout' : s'.out = s.out := funext fun d ↦ by
    rw [out_of_pc (s := s) rfl d]
    split <;> simp_all [Pc.out]
  refine h.touch c q rfl rfl (by rw [hof]; rfl) (fun p hp ↦ ?_) (fun _ _ _ _ hok ↦ hok)
    (fun p k hmem ↦ ?_) ?_ h.queue_nodup (h.lists_of rfl rfl (by rw [hrole]; rfl))
  · refine Same.of_pc rfl rfl ?_ (fun _ ↦ .rfl) (fun _ ↦ .rfl) rfl (by rw [hof]; rfl)
      (by simp [hrole, Pc.role, Role.Agree, hp.symm])
    simp [hs', State.goto, State.setPi, hp]
  · obtain ⟨rfl, rfl⟩ := Prod.mk.inj (List.mem_singleton.mp hmem)
    exact hcur
  · have hmoving : ∀ d, (s'.role d).moving = (s.role d).moving := fun d ↦ by
      rw [hrole']
      split <;> simp_all [Pc.role]
    have hbearing : ∀ d, (s'.role d).bearing = (s.role d).bearing := fun d ↦ by
      rw [hrole']
      split <;> simp_all [Pc.role]
    have hcarried : ∀ d, (s'.role d).carried = (s.role d).carried := fun d ↦ by
      rw [hrole']
      split <;> simp_all [Pc.role]
    have hlist : ∀ d, (s'.role d).list = (s.role d).list := fun d ↦ by
      rw [hrole']
      split <;> simp_all [Pc.role]
    refine { ht with owned := ?_, pi := ?_, listed_pi := ?_, carried := ?_, running := ?_,
                     moving := ?_, moving_unique := ?_ }
    all_goals try simp only [hmoving, hbearing, hcarried, hlist, hout']
    · exact ht.owned
    · have hpi' := ht.pi
      simp only [hrole', Pc.role]
      simp only [hs', State.goto, State.setPi]
      grind
    · exact fun _ _ ↦ by simp [hs', State.goto, State.setPi]
    · exact ht.carried
    · exact ht.running
    · exact ht.moving
    · exact ht.moving_unique

theorem Inv.gotoStage (h : Inv M s) {stage stage' : WakeStage} (hpc : s.pc c = .wake q stage)
    (hrole : (Pc.wake q stage' : Pc P C).role = (Pc.wake q stage : Pc P C).role)
    (hok : (stage'.mention (C := C)).Ok c (s.view q)) : Inv M (s.goto c (.wake q stage')) := by
  refine h.goto (by rw [State.role, hpc, hrole]) (by rw [State.out, hpc]; rfl) fun p k hmem ↦ ?_
  rcases mem_curr_cons hmem with ⟨rfl, rfl⟩ | hmem
  · exact h.curr_ok_of_wake hpc
  · obtain ⟨rfl, rfl⟩ := Prod.mk.inj (List.mem_singleton.mp hmem)
    exact hok

theorem Inv.setWaking (h : Inv M s) (hpc : s.pc c = .wake q .offRq) :
    Inv M ((s.setTaskState q taskWaking).goto c (.wake q .waking)) := by
  have hcur := h.curr_ok_of_wake hpc
  have hoff : Mention.offRq.Ok c (s.view q) := h.stage_ok hpc
  have hno : s.onRq q = .no := hoff.1
  have hrole : s.role c = { pi := some q } := by rw [State.role, hpc]; rfl
  have hof : s.out c = none := by rw [State.out, hpc]; rfl
  have ht := h.task q
  have hpi : s.piLock q = some c := (ht.pi c).mp (by rw [hrole])
  set s' := (s.setTaskState q taskWaking).goto c (.wake q .waking) with hs'
  have hrole' := role_of_pc (s := s) (c := c) (show s'.pc = _ from rfl)
  have hout' : s'.out = s.out := funext fun d ↦ by
    rw [out_of_pc (s := s) rfl d]
    split <;> simp_all [Pc.out]
  have hself : s'.view q = { s.view q with state := taskWaking } := by
    simp [hs', State.view, State.goto, State.setTaskState]
  have hstate : s'.state q = taskWaking := congrArg View.state hself
  refine h.touch c q rfl rfl (by rw [hof]; rfl) (fun p hp ↦ ?_) (fun d k hd hmem hok ↦ ?_)
    (fun p k hmem ↦ ?_) ?_ h.queue_nodup (h.lists_of rfl rfl (by rw [hrole]; rfl))
  · refine Same.of_pc rfl ?_ rfl (fun _ ↦ .rfl) (fun _ ↦ .rfl) rfl (by rw [hof]; rfl)
      (by simp [hrole, Pc.role, Role.Agree, hp.symm])
    simp [hs', State.view, State.goto, State.setTaskState, hp]
  · rw [hself]
    exact Mention.ok_setWaking hoff (h.not_underPi hmem (by simp [hpi, hd.symm])) hok
  · rcases mem_curr_cons hmem with ⟨rfl, rfl⟩ | hmem
    · exact hcur
    · obtain ⟨rfl, rfl⟩ := Prod.mk.inj (List.mem_singleton.mp hmem)
      rw [hself]
      exact ⟨hno, rfl⟩
  · have hmoving : ∀ d, (s'.role d).moving = (s.role d).moving := fun d ↦ by
      rw [hrole']
      split <;> simp_all [Pc.role]
    have hlist : ∀ d, (s'.role d).list = (s.role d).list := fun d ↦ by
      rw [hrole']
      split <;> simp_all [Pc.role]
    refine { ht with unborn := ?_, idle := ?_, owned := ?_, pi := ?_, wakeList := ?_,
                     listed_pi := ?_, carried := ?_, running := ?_, moving := ?_,
                     moving_unique := ?_ }
    all_goals try simp only [hmoving, hlist, hout']
    · exact fun hx ↦ absurd (hstate.symm.trans hx) (by simp)
    · exact fun d hd ↦ absurd ((ht.idle d hd).2.1.symm.trans hno) (by simp)
    · exact ht.owned
    · have hpi' := ht.pi
      simp only [hrole', Pc.role]
      simp only [hs', State.goto, State.setTaskState]
      grind
    · exact fun d hd ↦ absurd (ht.wakeList d hd).2.1 hoff.2.2.1
    · exact ht.listed_pi
    · exact fun _ ↦ .inl ⟨c, by simp [hrole', Pc.role]⟩
    · exact fun hx ↦ absurd (hstate.symm.trans hx) (by simp)
    · exact ht.moving
    · exact ht.moving_unique

/-- `set_task_cpu` for a task that no CPU uses any more. -/
theorem Inv.setCpu (h : Inv M s) (hpc : s.pc c = .wake q .select) (dest : C) (migrated : Bool) :
    Inv M ((s.setTaskCpu q dest).goto c (.wake q (.queue migrated))) := by
  have hcur := h.curr_ok_of_wake hpc
  have hrel : Mention.released.Ok c (s.view q) := h.stage_ok hpc
  obtain ⟨hno, hwak, hfree⟩ := hrel
  have hrole : s.role c = { pi := some q, carried := some q } := by rw [State.role, hpc]; rfl
  have hof : s.out c = none := by rw [State.out, hpc]; rfl
  have ht := h.task q
  have hpi : s.piLock q = some c := (ht.pi c).mp (by rw [hrole])
  set s' := (s.setTaskCpu q dest).goto c (.wake q (.queue migrated)) with hs'
  have hsame : ∀ d, s'.role d = s.role d := fun d ↦ by
    rw [role_of_pc (s := s) rfl d]
    split <;> simp_all [Pc.role]
  have hview : ∀ p, p ≠ q → s'.view p = s.view p := fun p hp ↦ by
    simp [hs', State.view, State.goto, State.setTaskCpu, hp]
  have hself : s'.view q = { s.view q with cpu := dest } := by
    simp [hs', State.view, State.goto, State.setTaskCpu]
  refine h.touch c q rfl rfl (by rw [hof]; rfl) (fun p hp ↦ ?_) (fun d k hd hmem hok ↦ ?_)
    (fun p k hmem ↦ ?_) ?_ h.queue_nodup (h.lists_of rfl rfl (by rw [hrole]; rfl))
  · exact Same.of_pc rfl (hview p hp) rfl (fun _ ↦ .rfl) (fun _ ↦ .rfl) rfl (by rw [hof]; rfl)
      (by simp [hrole, Pc.role, Role.Agree])
  · rw [hself]
    exact Mention.ok_setCpu (c := c) ⟨hno, hwak, hfree⟩
      (h.not_underPi hmem (by simp [hpi, hd.symm])) (h.not_onList hmem (by simp [hpi])) hok
  · rcases mem_curr_cons hmem with ⟨rfl, rfl⟩ | hmem
    · have hne : s.curr c ≠ q := by
        rintro rfl
        exact absurd (hcur.2.2.symm.trans hno) (by simp)
      rw [hview _ hne]
      exact hcur
    · obtain ⟨rfl, rfl⟩ := Prod.mk.inj (List.mem_singleton.mp hmem)
      rw [hself]
      exact ⟨hno, hwak, hfree⟩
  · have hrq : s.onRq q ≠ .queued := fun hq ↦ absurd (hno.symm.trans hq) (by simp)
    refine { ht with idle := ?_, mem_queue := ?_, owned := ?_, pi := ?_, wakeList := ?_,
                     listed_pi := ?_, carried := ?_, running := ?_, moving := ?_,
                     moving_unique := ?_ }
    all_goals try simp only [hsame]
    · exact fun d hd ↦ absurd (ht.idle d hd).2.1 hrq
    · exact fun d ↦ iff_of_false (fun hd ↦ hrq ((ht.mem_queue d).mp hd).1) fun hd ↦ hrq hd.1
    · exact fun hon ↦ absurd (hfree.symm.trans hon) (by simp)
    · exact ht.pi
    · exact fun d hd ↦ absurd (hpi.symm.trans (ht.listed_pi d (.inl hd))) (by simp)
    · exact ht.listed_pi
    · exact fun _ ↦ .inl ⟨c, by simp [hrole]⟩
    · exact ht.running
    · exact ht.moving
    · exact ht.moving_unique

/-- `__ttwu_queue_wakelist`: the task goes on the list of its CPU. -/
theorem Inv.push (h : Inv M s) {stage : WakeStage} (hpc : s.pc c = .wake q stage)
    (hcar : (s.role c).carried = some q) (remote : P → Bool) :
    Inv M (({ s with
      remoteWakeup := remote
      wakeList := update s.wakeList (s.cpu q) (s.wakeList (s.cpu q) ++ [q]) }.setPi q none).goto c
        .task) := by
  have hcur := h.curr_ok_of_wake hpc
  have hrole : s.role c = { pi := some q, carried := some q } := by
    revert hcar
    rw [State.role, hpc]
    cases stage <;> simp [Pc.role]
  have hof : s.out c = none := by rw [State.out, hpc]; rfl
  have ht := h.task q
  have hpi : s.piLock q = some c := (ht.pi c).mp (by rw [hrole])
  obtain ⟨k, hk, hok⟩ := (mention_of_role q).1 hcar
  obtain ⟨hno, hwak⟩ := hok _ (h.claims c q k hk)
  have hnot : ∀ d, q ∉ s.wakeList d ∧ q ∉ (s.role d).list := fun d ↦
    ⟨fun hd ↦ by simpa [hpi] using ht.listed_pi d (.inl hd),
      fun hd ↦ by simpa [hpi] using ht.listed_pi d (.inr hd)⟩
  set s' := ({ s with
      remoteWakeup := remote
      wakeList := update s.wakeList (s.cpu q) (s.wakeList (s.cpu q) ++ [q]) }.setPi q none).goto c
        .task with hs'
  have hmem : ∀ d p, p ∈ s'.wakeList d ↔ p ∈ s.wakeList d ∨ p = q ∧ d = s.cpu q := fun d p ↦ by
    by_cases hd : d = s.cpu q
    · simp [hs', State.goto, State.setPi, hd]
    · simp [hs', State.goto, State.setPi, hd]
  have hrole' := role_of_pc (s := s) (c := c) (show s'.pc = _ from rfl)
  have hout' : s'.out = s.out := funext fun d ↦ by
    rw [out_of_pc (s := s) rfl d]
    split <;> simp_all [Pc.out]
  have hlist : ∀ d, (s'.role d).list = (s.role d).list := fun d ↦ by
    rw [hrole']
    split <;> simp_all [Pc.role]
  refine h.touch c q rfl rfl (by rw [hof]; rfl) (fun p hp ↦ ?_) (fun d k hd hmem hok ↦ hok)
    (fun p k hk ↦ ?_) ?_ h.queue_nodup fun d ↦ ?_
  · refine Same.of_pc rfl rfl ?_ (fun _ ↦ .rfl) (fun d ↦ ?_) rfl (by rw [hof]; rfl)
      (by simp [hrole, Pc.role, Role.Agree, hp.symm])
    · simp [hs', State.goto, State.setPi, hp]
    · simp [hmem, hp]
  · obtain ⟨rfl, rfl⟩ := Prod.mk.inj (List.mem_singleton.mp hk)
    exact hcur
  · have hmoving : ∀ d, (s'.role d).moving = (s.role d).moving := fun d ↦ by
      rw [hrole']
      split <;> simp_all [Pc.role]
    have hbearing : ∀ d, (s'.role d).bearing = (s.role d).bearing := fun d ↦ by
      rw [hrole']
      split <;> simp_all [Pc.role]
    refine { ht with owned := ?_, pi := ?_, wakeList := ?_, listed_pi := ?_, carried := ?_,
                     running := ?_, moving := ?_, moving_unique := ?_ }
    all_goals try simp only [hmem, hlist, hmoving, hbearing, hout']
    · exact ht.owned
    · have hpi' := ht.pi
      simp only [hrole', Pc.role]
      simp only [hs', State.goto, State.setPi]
      grind
    · rintro d (hd | ⟨-, rfl⟩)
      · exact absurd hd (hnot d).1
      · exact ⟨hno, hwak, rfl⟩
    · exact fun _ _ ↦ by simp [hs', State.goto, State.setPi]
    · exact fun _ ↦ .inr (.inl (.inr ⟨trivial, rfl⟩))
    · exact ht.running
    · exact ht.moving
    · exact ht.moving_unique
  · rw [hlist]
    have hd := h.lists_nodup d
    have hq := hnot d
    simp only [hs', State.goto, State.setPi]
    grind

/-! ## Enqueueing -/

/-- The holder of the `pi_lock` of `q` after `c` has let go of it. -/
def State.piAfter (s : State P C) (c : C) (q : P) : Option C :=
  if (s.role c).pi = some q then none else s.piLock q

/-- `activate_task` for a task that `c` had in its hands and that no CPU uses. -/
theorem Inv.enqueue (h : Inv M s) (pc : Pc P C) (hrq : s.onRq q ≠ .queued)
    (hfree : s.onCpu q = false)
    (hwaking : x ≠ taskWaking) (hnew : x ≠ taskNew) (hout : pc.out = s.out c)
    (hagree : ∀ p, p ≠ q → (s.role c).Agree pc.role p)
    (hpi : pc.role.pi ≠ some q) (hmoving : pc.role.moving = none)
    (hsub : pc.role.list.Sublist (s.role c).list) (hlisted : ∀ d, q ∉ s.wakeList d)
    (hlist : ∀ d, q ∉ (if d = c then pc.role else s.role d).list)
    (hothers : ∀ d k, d ≠ c → (q, k) ∈ s.mentions d → k.Ok d (s.view q) →
      k.Ok d { s.view q with state := x, onRq := .queued })
    (hown : ∀ p k, (p, k) ∈ pc.mentions (s.curr c) → p ≠ q ∧ k.Ok c (s.view p)) :
    Inv M ((((s.activateTask (s.cpu q) q).setTaskState q x).setPi q (s.piAfter c q)).goto c
      pc) := by
  have ht := h.task q
  have hidle := ht.not_idle hrq
  set s' := (((s.activateTask (s.cpu q) q).setTaskState q x).setPi q (s.piAfter c q)).goto c pc
    with hs'
  have hrole' := role_of_pc (s := s) (c := c) (show s'.pc = _ from rfl)
  have hout' := out_of_pc (s := s) (c := c) (show s'.pc = _ from rfl)
  have hview : ∀ p, p ≠ q → s'.view p = s.view p := fun p hp ↦ by
    simp [hs', State.view, State.goto, State.activateTask, State.setTaskState, State.setPi, hp]
  have hself : s'.view q = { s.view q with state := x, onRq := .queued } := by
    simp [hs', State.view, State.goto, State.activateTask, State.setTaskState, State.setPi]
  have hstate : s'.state q = x := congrArg View.state hself
  have hqueued : s'.onRq q = .queued := congrArg View.onRq hself
  have hnot : ∀ d, q ∉ s.queue d := fun d hd ↦ hrq ((ht.mem_queue d).mp hd).1
  refine h.touch c q rfl rfl hout (fun p hp ↦ ?_)
    (fun d k hd hmem hok ↦ hself ▸ hothers d k hd hmem hok) (fun p k hmem ↦ ?_) ?_
    (nodup_queue_activate h.queue_nodup (hnot _)) fun d ↦ ?_
  · refine Same.of_pc rfl (hview p hp) ?_ ?_ (fun _ ↦ .rfl) rfl hout (hagree p hp)
    · simp [hs', State.goto, State.setPi, State.activateTask, State.setTaskState, hp]
    · exact fun d ↦ mem_queue_activate.trans (by simp [hp])
  · obtain ⟨hp, hok⟩ := hown p k hmem
    rwa [hview p hp]
  · constructor <;> try simp only [hrole', hout']
    · exact fun hx ↦ absurd (hstate.symm.trans hx) hnew
    · exact fun d hd ↦ absurd (hidle.symm.trans hd) (by simp)
    · intro d
      rw [hqueued]
      exact mem_queue_activate.trans (by simp [hnot d, hidle, eq_comm, hs', State.goto,
        State.setPi, State.activateTask, State.setTaskState])
    · exact fun hon ↦ absurd (hfree.symm.trans hon) (by simp)
    · intro d
      have hd := ht.pi d
      have hc := ht.pi c
      simp only [hs', State.goto, State.setPi, State.activateTask, State.setTaskState,
        State.piAfter, update_self]
      clear hothers hown hagree hsub hlist
      grind
    · exact fun d hd ↦ absurd hd (hlisted d)
    · exact fun d hd ↦ absurd hd (not_or.mpr ⟨hlisted d, hlist d⟩)
    · exact fun hx ↦ absurd (hstate.symm.trans hx) hwaking
    · exact fun _ hno ↦ absurd (hqueued.symm.trans hno) (by simp)
    · exact fun hm ↦ absurd (hqueued.symm.trans hm) (by simp)
    · intro d e hd he
      have hd' : d ≠ c := by rintro rfl; simp [hmoving] at hd
      have he' : e ≠ c := by rintro rfl; simp [hmoving] at he
      rw [if_neg hd'] at hd
      rw [if_neg he'] at he
      exact ht.moving_unique d e hd he
  · rw [hrole']
    split
    · subst d
      exact (h.lists_nodup c).sublist (List.Sublist.append_left hsub _)
    · exact h.lists_nodup d

/-- `ttwu_do_activate` under the lock of the run queue of `q`, by a waker. -/
theorem Inv.activate (h : Inv M s) {migrated : Bool}
    (hpc : s.pc c = .wake q (.activate migrated)) :
    Inv M ((((s.activateTask (s.cpu q) q).setTaskState q taskRunning).setPi q none).goto c
      .task) := by
  have hcur := h.curr_ok_of_wake hpc
  have hrel : Mention.released.Ok c (s.view q) := h.stage_ok hpc
  have hno : s.onRq q = .no := hrel.1
  have hrole : s.role c = { pi := some q, carried := some q } := by rw [State.role, hpc]; rfl
  have hpi : s.piLock q = some c := ((h.task q).pi c).mp (by rw [hrole])
  have hlisted := h.not_listed_of_pi (q := q) (by simp [hpi])
  have hafter : s.piAfter c q = none := by simp [State.piAfter, hrole]
  refine hafter ▸ h.enqueue .task (by simp [hno]) hrel.2.2 (by decide) (by decide)
    (by rw [State.out, hpc]; rfl) (fun p hp ↦ by simp [hrole, Pc.role, Role.Agree, hp.symm])
    (by simp [Pc.role]) rfl (by simp [Pc.role]) (fun d ↦ (hlisted d).1) (fun d ↦ ?_)
    (fun d k hd hmem hok ↦ ?_) fun p k hmem ↦ ?_
  · split
    · simp [Pc.role]
    · exact (hlisted d).2
  · refine Mention.ok_activate hrel (h.not_underPi hmem (by simp [hpi, hd.symm])) (fun hl ↦ ?_) hok
    simp [h.not_onList hmem (by simp [hpi])] at hl
  · obtain ⟨rfl, rfl⟩ := Prod.mk.inj (List.mem_singleton.mp hmem)
    refine ⟨?_, hcur⟩
    rintro rfl
    exact absurd (hcur.2.2.symm.trans hno) (by simp)

/-! ## Steps of `sched_ttwu_pending` -/

omit [DecidableEq P] in
/-- The whole list is taken, with interrupts off: nobody on it uses a CPU any more. -/
theorem Inv.takeList (h : Inv M s) (hpc : s.pc c = .task) :
    Inv M ({ s with wakeList := update s.wakeList c [] }.goto c
      (.pending (s.wakeList c))) := by
  have hcur := h.curr_ok_of_task hpc
  have hrole : s.role c = {} := by rw [State.role, hpc]; rfl
  have hof : s.out c = none := by rw [State.out, hpc]; rfl
  set s' := { s with wakeList := update s.wakeList c [] }.goto c (.pending (s.wakeList c)) with hs'
  have hrole' := role_of_pc (s := s) (c := c) (show s'.pc = _ from rfl)
  have hout' : s'.out = s.out := funext fun d ↦ by
    rw [out_of_pc (s := s) rfl d]
    split <;> simp_all [Pc.out]
  have hmem : ∀ d p, p ∈ s'.wakeList d ∨ p ∈ (s'.role d).list ↔
      p ∈ s.wakeList d ∨ p ∈ (s.role d).list := fun d p ↦ by
    rw [hrole']
    by_cases hd : d = c <;> simp [hs', State.goto, hd, Pc.role, hrole]
  refine ⟨?_, fun p ↦ ?_, h.queue_nodup, fun d ↦ ?_, hout' ▸ h.out_ne⟩
  · refine h.claims_of c (s.curr c) (fun _ _ ↦ rfl) (fun d hd ↦ ?_) (fun _ _ _ _ hok ↦ hok)
      fun p k hk ↦ ?_
    · simp [hs', State.mentions, State.goto, hd]
    · simp only [hs', State.mentions, State.goto, update_self, Pc.mentions] at hk
      rcases mem_curr_cons hk with ⟨rfl, rfl⟩ | hk
      · exact hcur
      · obtain ⟨r, hr, heq⟩ := List.mem_map.mp hk
        obtain ⟨rfl, rfl⟩ := Prod.mk.inj heq
        obtain ⟨hno, hwak, hcpu⟩ := (h.task r).wakeList c hr
        simp only [State.view] at hno hwak hcpu
        refine ⟨hno, hwak, hcpu, h.onCpu_eq_false (by simp [hcpu, hof]) fun hr' ↦ ?_⟩
        rw [hcpu] at hr'
        exact absurd ((hr' ▸ hcur.2.2 : s.onRq r = .queued).symm.trans hno) (by simp)
  · have ht := h.task p
    have hother : ∀ d, (s'.role d).pi = (s.role d).pi ∧
        (s'.role d).carried = (s.role d).carried ∧ (s'.role d).bearing = (s.role d).bearing ∧
        (s'.role d).moving = (s.role d).moving := fun d ↦ by
      rw [hrole']
      split <;> simp_all [Pc.role]
    constructor <;> try simp only [hmem, hother, hout']
    · exact ht.unborn
    · exact ht.idle
    · exact ht.mem_queue
    · exact ht.owned
    · exact ht.pi
    · intro d hd
      refine ht.wakeList d ?_
      by_cases hdc : d = c
      · simp [hs', State.goto, hdc] at hd
      · simpa [hs', State.goto, hdc] using hd
    · exact ht.listed_pi
    · exact ht.carried
    · exact ht.running
    · exact ht.moving
    · exact ht.moving_unique
  · rw [hrole']
    by_cases hd : d = c
    · subst hd
      have hnodup := h.lists_nodup d
      simp only [hs', State.goto, hrole, Pc.role] at hnodup ⊢
      simpa using hnodup
    · simpa [hs', State.goto, hd] using h.lists_nodup d

/-- `ttwu_do_activate` for the next task of the list. -/
theorem Inv.activatePending (h : Inv M s) {rest : List P} (hpc : s.pc c = .pending (q :: rest)) :
    Inv M (((s.activateTask c q).setTaskState q taskRunning).goto c (.pending rest)) := by
  have hcur := h.claims c (s.curr c) .curr (by simp [State.mentions, hpc, Pc.mentions])
  obtain ⟨hno, hwak, hcpu, hfree⟩ := h.claims c q .pending
    (by simp [State.mentions, hpc, Pc.mentions])
  simp only [State.view] at hno hwak hcpu hfree
  have hrole : s.role c = { list := q :: rest } := by rw [State.role, hpc]; rfl
  have hpi : s.piLock q = none := (h.task q).listed_pi c (.inr (by simp [hrole]))
  have hafter : s.piAfter c q = s.piLock q := by simp [State.piAfter, hrole]
  have hnodup := h.lists_nodup c
  rw [hrole] at hnodup
  -- only this CPU's lists can hold `q`, and they held it once
  have hlisted : ∀ d, q ∉ s.wakeList d := fun d hd ↦ by
    obtain rfl : d = c := ((h.task q).wakeList d hd).2.2.symm.trans hcpu
    grind
  have hq : q ∉ rest := by grind
  have henq := h.enqueue (.pending rest) (by simp [hno]) hfree
    (show taskRunning ≠ taskWaking by decide) (by decide) (by rw [State.out, hpc]; rfl)
    (fun p hp ↦ by simp [hrole, Pc.role, Role.Agree, hp]) (by simp [Pc.role]) rfl
    (by simp [hrole, Pc.role]) hlisted (fun d ↦ ?_) (fun d k hd hmem hok ↦ ?_) fun p k hmem ↦ ?_
  · refine henq.congr (by rw [hcpu]; rfl) ?_ (by rw [hcpu]; rfl) rfl rfl rfl
    simp [State.goto, State.setPi, State.setTaskState, State.activateTask, hafter]
  · split
    · exact hq
    · intro hd
      have hd' := (h.listed (.inr hd)).2.2.symm.trans hcpu
      exact absurd hd' ‹_›
  · exact Mention.ok_activate (c := c) ⟨hno, hwak, hfree⟩ (h.not_underPi hmem (by simp [hpi]))
      (fun _ hd' ↦ hd (hd'.symm.trans hcpu)) hok
  · rcases mem_curr_cons hmem with ⟨rfl, rfl⟩ | hmem
    · refine ⟨?_, hcur⟩
      rintro rfl
      exact absurd (hcur.2.2.symm.trans hno) (by simp)
    · obtain ⟨r, hr, heq⟩ := List.mem_map.mp hmem
      obtain ⟨rfl, rfl⟩ := Prod.mk.inj heq
      exact ⟨fun he ↦ hq (he ▸ hr),
        h.claims c r _ (by simp [State.mentions, hpc, Pc.mentions, hr])⟩

/-! ## Moving queued tasks, and new tasks -/

/-- `move_queued_task` takes a task that no CPU uses off its run queue. -/
theorem Inv.moveOut (h : Inv M s) {src dest : C} {piLocked : Bool} (hpc : s.pc c = .task)
    (hmem : q ∈ s.queue src) (hfree : s.onCpu q = false)
    (hpi : piLocked = true → s.piLock q = none) :
    Inv M ((s.setPi q (if piLocked then some c else s.piLock q)).moveOut c q src dest
      piLocked) := by
  have hcur := h.curr_ok_of_task hpc
  have ht := h.task q
  obtain ⟨hrq, hcpu, hidle⟩ := (ht.mem_queue src).mp hmem
  have hrole : s.role c = {} := by rw [State.role, hpc]; rfl
  have hof : s.out c = none := by rw [State.out, hpc]; rfl
  have hnomove : ∀ d, (s.role d).moving ≠ some q := fun d hd ↦ by
    obtain ⟨e, he⟩ := (mention_of_role q).2.2.2 hd
    exact absurd (hrq.symm.trans (h.claims d q _ he).1) (by simp)
  have hnolist : ∀ d, ¬(q ∈ s.wakeList d ∨ q ∈ (s.role d).list) := fun d hd ↦
    absurd (hrq.symm.trans (h.listed hd).1) (by simp)
  set s' := (s.setPi q (if piLocked then some c else s.piLock q)).moveOut c q src dest piLocked
    with hs'
  have hpc' : s'.pc = update s.pc c (.moved q dest piLocked) := rfl
  have hrole' := role_of_pc hpc'
  have hout' : s'.out = s.out := funext fun d ↦ by
    rw [out_of_pc hpc' d]
    split <;> simp_all [Pc.out]
  have hview : ∀ p, p ≠ q → s'.view p = s.view p := fun p hp ↦ by
    simp [hs', State.view, State.moveOut, State.goto, State.deactivateTask, State.setTaskCpu,
      State.setPi, hp]
  have hself : s'.view q = { s.view q with onRq := .migrating, cpu := dest } := by
    simp [hs', State.view, State.moveOut, State.goto, State.deactivateTask, State.setTaskCpu,
      State.setPi]
  have hmig : s'.onRq q = .migrating := congrArg View.onRq hself
  refine h.touch c q hpc' rfl (by rw [hof]; rfl) (fun p hp ↦ ?_) (fun d k hd hm hok ↦ ?_)
    (fun p k hm ↦ ?_) ?_ (nodup_queue_deactivate h.queue_nodup false)
    (h.lists_of hpc' rfl (by rw [hrole]; rfl))
  · refine Same.of_pc hpc' (hview p hp) ?_ (fun d ↦ ?_) (fun _ ↦ .rfl) rfl (by rw [hof]; rfl)
      (by simp [hrole, Pc.role, Role.Agree, hp.symm])
    · simp [hs', State.moveOut, State.goto, State.deactivateTask, State.setTaskCpu, State.setPi, hp]
    · exact (mem_queue_deactivate h.queue_nodup false).trans (by simp [hp])
  · rw [hself]
    exact Mention.ok_moveOut hrq hfree hok
  · rcases mem_curr_cons hm with ⟨rfl, rfl⟩ | hm
    · have hne : s.curr c ≠ q := by
        rintro rfl
        exact absurd (hcur.1.symm.trans hfree) (by simp)
      rw [hview _ hne]
      exact hcur
    · obtain ⟨rfl, rfl⟩ := Prod.mk.inj (List.mem_singleton.mp hm)
      rw [hself]
      exact ⟨rfl, rfl, hfree⟩
  · constructor
    · exact fun hnew ↦ absurd ((ht.unborn hnew).1.symm.trans hrq) (by simp)
    · exact fun d hd ↦ absurd (hidle.symm.trans hd) (by simp)
    · intro d
      rw [hmig]
      refine (mem_queue_deactivate h.queue_nodup false).trans ?_
      have hd := ht.mem_queue d
      grind
    · exact fun hon ↦ absurd (hfree.symm.trans hon) (by simp)
    · have hpi' := ht.pi
      simp only [hrole', Pc.role]
      simp only [hs', State.moveOut, State.goto, State.deactivateTask, State.setTaskCpu,
        State.setPi]
      cases piLocked <;> grind
    · exact fun d hd ↦ absurd (.inl hd) (hnolist d)
    · intro d hd
      refine absurd (hd.imp id fun hd ↦ ?_) (hnolist d)
      rw [hrole'] at hd
      split at hd
      · simp [Pc.role] at hd
      · exact hd
    · exact fun hwak ↦ absurd (hrq.symm.trans (h.waking_off hwak)) (by simp)
    · exact fun _ hno ↦ absurd (hmig.symm.trans hno) (by simp)
    · exact fun _ ↦ ⟨c, by simp [hrole', Pc.role]⟩
    · simp only [hrole', Pc.role]
      grind

/-- `move_queued_task` puts the task on its new run queue. -/
theorem Inv.moveIn (h : Inv M s) {dest : C} {piLocked : Bool}
    (hpc : s.pc c = .moved q dest piLocked) :
    Inv M (((s.activateTask dest q).setPi q (if piLocked then none else s.piLock q)).goto c
      .task) := by
  have hcur := h.claims c (s.curr c) .curr (by simp [State.mentions, hpc, Pc.mentions])
  obtain ⟨hrq, hcpu, hfree⟩ := h.claims c q (.moved dest)
    (by simp [State.mentions, hpc, Pc.mentions])
  simp only [State.view] at hrq hcpu hfree
  have hrole : s.role c = { moving := some q, pi := if piLocked then some q else none } := by
    rw [State.role, hpc]; rfl
  have hnolist : ∀ d, ¬(q ∈ s.wakeList d ∨ q ∈ (s.role d).list) := fun d hd ↦
    absurd (hrq.symm.trans (h.listed hd).1) (by simp)
  have hafter : s.piAfter c q = if piLocked then none else s.piLock q := by
    cases piLocked <;> simp [State.piAfter, hrole]
  have henq := h.enqueue (x := s.state q) .task (by simp [hrq]) hfree
    (fun hx ↦ absurd (hrq.symm.trans (h.waking_off hx)) (by simp))
    (fun hx ↦ absurd (hrq.symm.trans ((h.task q).unborn hx).1) (by simp))
    (by rw [State.out, hpc]; rfl) (fun p hp ↦ by simp [hrole, Pc.role, Role.Agree, hp.symm])
    (by simp [Pc.role]) rfl (by simp [Pc.role]) (fun d hd ↦ hnolist d (.inl hd)) (fun d ↦ ?_)
    (fun d k hd hm hok ↦ ?_) fun p k hmem ↦ ?_
  · refine henq.congr ?_ (by rw [hafter]; rfl) (by rw [hcpu]; rfl) rfl rfl rfl
    funext p
    simp [State.view, State.goto, State.setPi, State.setTaskState, State.activateTask]
  · split
    · simp [Pc.role]
    · exact fun hd ↦ hnolist d (.inr hd)
  · refine Mention.ok_moveIn (c := c) ⟨hrq, hcpu, hfree⟩ hok fun e he ↦ hd ?_
    exact (h.task q).moving_unique d c ((mention_cases hm).2.2.1 e he) (by rw [hrole])
  · obtain ⟨rfl, rfl⟩ := Prod.mk.inj (List.mem_singleton.mp hmem)
    refine ⟨?_, hcur⟩
    rintro rfl
    exact absurd (hcur.2.2.symm.trans hrq) (by simp)

/-- `wake_up_new_task` has the lock of the new task, a state and a CPU for it. -/
theorem Inv.bear (h : Inv M s) (hpc : s.pc c = .task) (hpi : s.piLock q = none)
    (hnew : s.state q = taskNew) (dest : C) :
    Inv M ((((s.setPi q (some c)).setTaskState q taskRunning).setTaskCpu q dest).goto c
      (.born q)) := by
  have hcur := h.curr_ok_of_task hpc
  have ht := h.task q
  obtain ⟨hno, hfree⟩ := ht.unborn hnew
  have hrole : s.role c = {} := by rw [State.role, hpc]; rfl
  have hof : s.out c = none := by rw [State.out, hpc]; rfl
  have hrq : s.onRq q ≠ .queued := by simp [hno]
  have hnolist : ∀ d, ¬(q ∈ s.wakeList d ∨ q ∈ (s.role d).list) := fun d hd ↦
    absurd (hnew.symm.trans (h.listed hd).2.1) (by simp)
  set s' := (((s.setPi q (some c)).setTaskState q taskRunning).setTaskCpu q dest).goto c (.born q)
    with hs'
  have hrole' := role_of_pc (s := s) (c := c) (show s'.pc = _ from rfl)
  have hview : ∀ p, p ≠ q → s'.view p = s.view p := fun p hp ↦ by
    simp [hs', State.view, State.goto, State.setTaskState, State.setTaskCpu, State.setPi, hp]
  have hself : s'.view q = { s.view q with state := taskRunning, cpu := dest } := by
    simp [hs', State.view, State.goto, State.setTaskState, State.setTaskCpu, State.setPi]
  have hstate : s'.state q = taskRunning := congrArg View.state hself
  refine h.touch c q rfl rfl (by rw [hof]; rfl) (fun p hp ↦ ?_) (fun d k hd hm hok ↦ ?_)
    (fun p k hm ↦ ?_) ?_ h.queue_nodup (h.lists_of rfl rfl (by rw [hrole]; rfl))
  · refine Same.of_pc rfl (hview p hp) ?_ (fun _ ↦ .rfl) (fun _ ↦ .rfl) rfl (by rw [hof]; rfl)
      (by simp [hrole, Pc.role, Role.Agree, hp.symm])
    simp [hs', State.goto, State.setTaskState, State.setTaskCpu, State.setPi, hp]
  · rw [hself]
    exact Mention.ok_bear hno hfree hnew hok
  · rcases mem_curr_cons hm with ⟨rfl, rfl⟩ | hm
    · have hne : s.curr c ≠ q := by
        rintro rfl
        exact absurd (hcur.1.symm.trans hfree) (by simp)
      rw [hview _ hne]
      exact hcur
    · obtain ⟨rfl, rfl⟩ := Prod.mk.inj (List.mem_singleton.mp hm)
      rw [hself]
      exact ⟨hno, rfl, hfree⟩
  · constructor
    · exact fun hx ↦ absurd (hstate.symm.trans hx) (by simp)
    · exact fun d hd ↦ absurd (ht.idle d hd).2.1 hrq
    · exact fun d ↦ iff_of_false (fun hd ↦ hrq ((ht.mem_queue d).mp hd).1) fun hd ↦ hrq hd.1
    · exact fun hon ↦ absurd (hfree.symm.trans hon) (by simp)
    · have hpi' := ht.pi
      simp only [hrole', Pc.role]
      simp only [hs', State.goto, State.setTaskState, State.setTaskCpu, State.setPi]
      grind
    · exact fun d hd ↦ absurd (.inl hd) (hnolist d)
    · intro d hd
      refine absurd (hd.imp id fun hd ↦ ?_) (hnolist d)
      rw [hrole'] at hd
      split at hd
      · simp [Pc.role] at hd
      · exact hd
    · exact fun hx ↦ absurd (hstate.symm.trans hx) (by simp)
    · exact fun _ _ ↦ ⟨c, by simp [hrole', Pc.role]⟩
    · exact fun hm ↦ absurd (hno.symm.trans hm) (by simp)
    · have hunique := ht.moving_unique
      simp only [hrole', Pc.role]
      grind

theorem Inv.borne (h : Inv M s) (hpc : s.pc c = .born q) :
    Inv M (((s.activateTask (s.cpu q) q).setPi q none).goto c .task) := by
  have hcur := h.claims c (s.curr c) .curr (by simp [State.mentions, hpc, Pc.mentions])
  obtain ⟨hno, hrun, hfree⟩ := h.claims c q .born (by simp [State.mentions, hpc, Pc.mentions])
  simp only [State.view] at hno hrun hfree
  have hrole : s.role c = { pi := some q, bearing := some q } := by rw [State.role, hpc]; rfl
  have hpi : s.piLock q = some c := ((h.task q).pi c).mp (by rw [hrole])
  have hlisted := h.not_listed_of_pi (q := q) (by simp [hpi])
  have hafter : s.piAfter c q = none := by simp [State.piAfter, hrole]
  have henq := h.enqueue (x := s.state q) .task (by simp [hno]) hfree (by simp [hrun])
    (by simp [hrun]) (by rw [State.out, hpc]; rfl)
    (fun p hp ↦ by simp [hrole, Pc.role, Role.Agree, hp.symm]) (by simp [Pc.role]) rfl
    (by simp [Pc.role]) (fun d ↦ (hlisted d).1) (fun d ↦ ?_) (fun d k hd hm hok ↦ ?_)
    fun p k hmem ↦ ?_
  · refine henq.congr ?_ (by rw [hafter]; rfl) rfl rfl rfl rfl
    funext p
    simp [State.view, State.goto, State.setPi, State.setTaskState, State.activateTask]
  · split
    · simp [Pc.role]
    · exact (hlisted d).2
  · exact Mention.ok_bearing (c := c) ⟨hno, hrun, hfree⟩
      (h.not_underPi hm (by simp [hpi, hd.symm])) hok
  · obtain ⟨rfl, rfl⟩ := Prod.mk.inj (List.mem_singleton.mp hmem)
    refine ⟨?_, hcur⟩
    rintro rfl
    exact absurd (hcur.2.2.symm.trans hno) (by simp)

end NcuKernel.Wakeup
