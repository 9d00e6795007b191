import NcuKernel.CoreSched.RqLockMasks

/-!
# A run queue has one holder, whatever its lock is

"ends up locking and unlocking the same lock, and all CPUs always agree on what rq has
what lock": the comment over `sched_core_lock` as an invariant. From the place where a
thread is one can read off which spinlocks it owns, in terms of what `__rq_lockp` names
now. What `__rq_lockp` names changes only inside a mask whose spinlocks are all owned by
the one who changes it, so nobody else's lock is touched.
-/

namespace NcuKernel.RqLock

open Runs

section

variable {C : Type*} (K : Topology C) (k : Cores C)

def Goal.Owns : Goal C → C → Prop
  | .second rq1, c => c = k.__rqLockp rq1
  | _, _ => False

def Stage.Owns : Stage C → C → Prop
  | .check lock, c => c = lock
  | _, _ => False

/-- The spinlock that the loop of `raw_spin_rq_lock_nested` is going to take. -/
def Stage.lock (rq : C) : Stage C → Option C
  | .readCore => some (k.core rq)
  | .wait lock | .check lock => some lock
  | _ => none

def Phase.Owns (mask : List C) : Phase C → C → Prop
  | .lock rest, c => c ∈ mask ∧ c ∉ rest
  | .body, c => c ∈ mask
  | .unlock rest, c => c ∈ rest

/-- The spinlocks that belong to a place. -/
def Pc.Owns : Pc C → C → Prop
  | .acquire goal _ stage, c => goal.Owns k c ∨ stage.Owns c
  | .compare rq1 _, c => c = k.__rqLockp rq1
  | .holds rq, c => c = k.__rqLockp rq
  | .both rq1 rq2, c => c = k.__rqLockp rq1 ∨ c = k.__rqLockp rq2
  | .core _ cpu phase, c => phase.Owns (k.cpuSmtMask K cpu) c
  | _, _ => False

/-- The second lock of `double_rq_lock` is another one than the first, and `sched_core_lock`
walks along its mask. -/
def Pc.Tidy : Pc C → Prop
  | .acquire (.second rq1) rq2 stage => k.__rqLockp rq2 ≠ k.__rqLockp rq1 ∧
      ∀ lock, stage.lock k rq2 = some lock → lock ≠ k.__rqLockp rq1
  | .core _ cpu (.lock rest) | .core _ cpu (.unlock rest) => rest <:+ k.cpuSmtMask K cpu
  | _ => True

end

variable {T C : Type*} {K : Topology C} {k k' : Cores C} {s s' : State T C} {t : T} {c cpu : C}
  {pc : Pc C}

structure Owned (K : Topology C) (s : State T C) : Prop where
  own : ∀ c t, s.owner c = some t ↔ (s.pc t).Owns K s.cores c
  tidy : ∀ t, (s.pc t).Tidy K s.cores

/-! ## What names a lock changes under the locks of a mask -/

/-- What names a lock changes only for the run queues of `mask`, and they share their locks
before and after. -/
structure Renames (mask : List C) (k k' : Cores C) : Prop where
  smt : k'.smt = k.smt
  coreEnabled : ∀ c, c ∉ mask → k'.coreEnabled c = k.coreEnabled c
  core : ∀ c, c ∉ mask → k'.core c = k.core c
  before : ∀ c ∈ mask, k.core c ∈ mask
  after : ∀ c ∈ mask, k'.core c ∈ mask

theorem rqLockp_mem {mask : List C} (hc : c ∈ mask) (hcore : k.core c ∈ mask) :
    k.__rqLockp c ∈ mask := by
  rw [Cores.__rqLockp]
  split_ifs
  · exact hcore
  · exact hc

section

variable {mask : List C}

theorem Renames.cpuSmtMask (h : Renames mask k k') (cpu : C) :
    k'.cpuSmtMask K cpu = k.cpuSmtMask K cpu := by
  rw [Cores.cpuSmtMask, Cores.cpuSmtMask, h.smt]

theorem Renames.rqLockp_of_out (h : Renames mask k k') (hc : c ∉ mask) :
    k'.__rqLockp c = k.__rqLockp c := by
  rw [Cores.__rqLockp, Cores.__rqLockp, h.coreEnabled c hc, h.core c hc]

theorem Renames.rqLockp_eq (h : Renames mask k k') (hout : k.__rqLockp c ∉ mask) :
    k'.__rqLockp c = k.__rqLockp c :=
  h.rqLockp_of_out fun hin ↦ hout (rqLockp_mem hin (h.before c hin))

/-- A thread that owns no spinlock of the mask sees no change. -/
theorem Renames.owns_iff (h : Renames mask k k')
    (hfree : ∀ c ∈ mask, ¬pc.Owns K k c) (c : C) : pc.Owns K k' c ↔ pc.Owns K k c := by
  have heq : ∀ rq, pc.Owns K k (k.__rqLockp rq) → k'.__rqLockp rq = k.__rqLockp rq :=
    fun rq hrq ↦ h.rqLockp_eq fun hin ↦ hfree _ hin hrq
  cases pc with
  | acquire goal rq stage =>
      cases goal with
      | second rq1 => simp only [Pc.Owns, Goal.Owns, heq rq1 (.inl rfl)]
      | _ => exact Iff.rfl
  | compare rq1 rq2 => simp only [Pc.Owns, heq rq1 rfl]
  | holds rq => simp only [Pc.Owns, heq rq rfl]
  | both rq1 rq2 => simp only [Pc.Owns, heq rq1 (.inl rfl), heq rq2 (.inr rfl)]
  | core job cpu phase => simp only [Pc.Owns, h.cpuSmtMask]
  | _ => exact Iff.rfl

theorem Renames.tidy (h : Renames mask k k')
    (hfree : ∀ c ∈ mask, ¬pc.Owns K k c) (hpc : pc.Tidy K k) : pc.Tidy K k' := by
  cases pc with
  | acquire goal rq2 stage =>
      cases goal with
      | second rq1 =>
          have hout : k.__rqLockp rq1 ∉ mask := fun hin ↦ hfree _ hin (.inl rfl)
          obtain ⟨hne, hlock⟩ := hpc
          rw [Pc.Tidy, h.rqLockp_eq hout]
          by_cases hin : rq2 ∈ mask
          · -- what is new is in the mask, the lock that is held is not
            refine ⟨fun heq ↦ hout (heq ▸ rqLockp_mem hin (h.after rq2 hin)), ?_⟩
            cases stage with
            | readCore =>
                rintro lock hnew rfl
                exact hout (Option.some.inj hnew ▸ h.after rq2 hin)
            | _ => exact hlock
          · refine ⟨by rwa [h.rqLockp_of_out hin], ?_⟩
            cases stage with
            | readCore =>
                rw [Stage.lock, h.core rq2 hin]
                exact hlock
            | _ => exact hlock
      | _ => trivial
  | core job cpu phase =>
      cases phase with
      | body => trivial
      | _ =>
          rw [Pc.Tidy, h.cpuSmtMask]
          exact hpc
  | _ => trivial

end

/-- The locks are named as before; only a thread in `sched_core_lock` looks at the masks. -/
theorem owns_congr (pc : Pc C) (hlock : ∀ rq, k'.__rqLockp rq = k.__rqLockp rq)
    (hcore : k'.core = k.core)
    (hmask : ∀ job cpu phase, pc = .core job cpu phase →
      k'.cpuSmtMask K cpu = k.cpuSmtMask K cpu) :
    (∀ c, pc.Owns K k' c ↔ pc.Owns K k c) ∧ (pc.Tidy K k' ↔ pc.Tidy K k) := by
  cases pc with
  | acquire goal rq stage =>
      have hstage : stage.lock k' rq = stage.lock k rq := by
        cases stage <;> simp [Stage.lock, hcore]
      cases goal <;>
        simp only [Pc.Owns, Goal.Owns, Pc.Tidy, hlock, hstage, implies_true, and_self]
  | core job cpu phase =>
      cases phase <;> simp only [Pc.Owns, Pc.Tidy, hmask _ _ _ rfl, implies_true, and_self]
  | _ => simp only [Pc.Owns, Pc.Tidy, hlock, implies_true, and_self]

theorem Cores.Led.core_mem (h : k.Led K) (hc : c ∈ k.cpuSmtMask K cpu) :
    k.core c ∈ k.cpuSmtMask K cpu := by
  rw [← cpuSmtMask_eq (mem_cpuSmtMask.mp hc).1]
  exact h.mem c (mem_cpuSmtMask.mp hc).2

section

variable [DecidableEq C]

/-- The section under `sched_core_lock` stays inside its mask. -/
theorem Cores.body_of_out (job : Job C) (hcpu : job = .starting → k.smt cpu = true)
    (hc : c ∉ k.cpuSmtMask K cpu) :
    (k.body K job cpu).1.coreEnabled c = k.coreEnabled c ∧
      (k.body K job cpu).1.core c = k.core c := by
  cases job with
  | flip enabled mask => simp [Cores.body, Cores.__schedCoreFlip, hc]
  | starting =>
      have hne : c ≠ cpu := by
        rintro rfl
        exact hc (mem_cpuSmtMask.mpr ⟨K.mem_siblings c, hcpu rfl⟩)
      simp only [Cores.body, Cores.schedCoreCpuStarting]
      split_ifs
      · exact ⟨rfl, rfl⟩
      · split
        · exact ⟨rfl, rfl⟩
        · simp [hne]
  | deactivate =>
      simp only [Cores.body, Cores.schedCoreCpuDeactivate]
      split_ifs
      · exact ⟨rfl, rfl⟩
      · exact ⟨rfl, rfl⟩
      · split
        · exact ⟨rfl, rfl⟩
        · simp [hc]

theorem Cores.Led.renames (h : k.Led K) {job : Job C} (h' : (k.body K job cpu).1.Led K)
    (hcpu : job = .starting → k.smt cpu = true) :
    Renames (k.cpuSmtMask K cpu) k (k.body K job cpu).1 := by
  have hsmt : (k.body K job cpu).1.smt = k.smt := by
    cases job with
    | flip => rfl
    | starting =>
        obtain ⟨core, heq⟩ := k.body_eq (K := K) .starting cpu (.inl rfl)
        rw [heq]
    | deactivate =>
        obtain ⟨core, heq⟩ := k.body_eq (K := K) .deactivate cpu (.inr rfl)
        rw [heq]
  have hmask : (k.body K job cpu).1.cpuSmtMask K cpu = k.cpuSmtMask K cpu := by
    rw [Cores.cpuSmtMask, Cores.cpuSmtMask, hsmt]
  refine ⟨hsmt, fun c hc ↦ (Cores.body_of_out job hcpu hc).1,
    fun c hc ↦ (Cores.body_of_out job hcpu hc).2, fun c hc ↦ h.core_mem hc, fun c hc ↦ ?_⟩
  rw [← hmask] at hc ⊢
  exact h'.core_mem hc

end

/-! ## Taking and dropping a spinlock -/

variable [DecidableEq T]

/-- Thread `t` goes to `pc`; the others own what they owned. -/
theorem Owned.move (h : Owned K s) (pc : Pc C) (hpc : s'.pc = Function.update s.pc t pc)
    (hothers : ∀ u, u ≠ t → (∀ c, (s.pc u).Owns K s'.cores c ↔ (s.pc u).Owns K s.cores c) ∧
      (s.pc u).Tidy K s'.cores)
    (howner : ∀ c u, u ≠ t → (s'.owner c = some u ↔ s.owner c = some u))
    (hmine : ∀ c, s'.owner c = some t ↔ pc.Owns K s'.cores c) (htidy : pc.Tidy K s'.cores) :
    Owned K s' where
  own c u := by
    by_cases hu : u = t
    · simpa [hpc, hu] using hmine c
    · rw [howner c u hu, h.own, hpc, Function.update_of_ne hu, (hothers u hu).1]
  tidy u := by
    by_cases hu : u = t
    · simpa [hpc, hu] using htidy
    · rw [hpc, Function.update_of_ne hu]
      exact (hothers u hu).2

/-- The locks are named as before and nobody is in `sched_core_lock` whose mask changes. -/
structure Named (K : Topology C) (s : State T C) (k : Cores C) : Prop where
  lock : ∀ rq, k.__rqLockp rq = s.cores.__rqLockp rq
  core : k.core = s.cores.core
  mask : ∀ u job cpu phase, s.pc u = .core job cpu phase →
    k.cpuSmtMask K cpu = s.cores.cpuSmtMask K cpu

omit [DecidableEq T] in
theorem named_refl (s : State T C) : Named K s s.cores := ⟨fun _ ↦ rfl, rfl, fun _ _ _ _ _ ↦ rfl⟩

omit [DecidableEq T] in
theorem Named.others (hn : Named K s s'.cores) (h : Owned K s) (u : T) :
    (∀ c, (s.pc u).Owns K s'.cores c ↔ (s.pc u).Owns K s.cores c) ∧
      (s.pc u).Tidy K s'.cores := by
  obtain ⟨howns, htidy⟩ := owns_congr (s.pc u) hn.lock hn.core (hn.mask u)
  exact ⟨howns, htidy.mpr (h.tidy u)⟩

theorem Owned.keep (h : Owned K s) (hn : Named K s s'.cores) (pc : Pc C)
    (hpc : s'.pc = Function.update s.pc t pc) (howner : s'.owner = s.owner)
    (hmine : ∀ c, pc.Owns K s'.cores c ↔ (s.pc t).Owns K s.cores c)
    (htidy : pc.Tidy K s'.cores) : Owned K s' := by
  refine h.move pc hpc (fun u _ ↦ hn.others h u) (fun c u _ ↦ by rw [howner]) (fun c ↦ ?_) htidy
  rw [howner, h.own, hmine]

variable [DecidableEq C]

theorem Owned.take (h : Owned K s) {lock : C} (hfree : s.owner lock = none) (pc : Pc C)
    (hmine : ∀ c, pc.Owns K s.cores c ↔ c = lock ∨ (s.pc t).Owns K s.cores c)
    (htidy : pc.Tidy K s.cores) : Owned K ((s.own lock (some t)).goto t pc) := by
  refine h.move pc rfl (fun u _ ↦ (named_refl s).others h u) (fun c u hu ↦ ?_) (fun c ↦ ?_) htidy
  · by_cases hc : c = lock
    · simp [State.goto, State.own, hc, hfree, hu.symm]
    · simp [State.goto, State.own, hc]
  · refine Iff.trans ?_ (hmine c).symm
    by_cases hc : c = lock
    · simp [State.goto, State.own, hc]
    · simp [State.goto, State.own, hc, h.own]

theorem Owned.drop (h : Owned K s) {lock : C} (hlock : (s.pc t).Owns K s.cores lock) (pc : Pc C)
    (hmine : ∀ c, pc.Owns K s.cores c ↔ (s.pc t).Owns K s.cores c ∧ c ≠ lock)
    (htidy : pc.Tidy K s.cores) : Owned K ((s.own lock none).goto t pc) := by
  have hown := (h.own lock t).mpr hlock
  refine h.move pc rfl (fun u _ ↦ (named_refl s).others h u) (fun c u hu ↦ ?_) (fun c ↦ ?_) htidy
  · by_cases hc : c = lock
    · simp [State.goto, State.own, hc, hown, hu.symm]
    · simp [State.goto, State.own, hc]
  · refine Iff.trans ?_ (hmine c).symm
    by_cases hc : c = lock
    · simp [State.goto, State.own, hc]
    · simp [State.goto, State.own, hc, h.own]

omit [DecidableEq C] in
/-- What is left of two locks, the second of which is dropped. -/
theorem dropped_iff {p : C → Prop} {lock : C} (hp : ¬p lock) (c : C) :
    p c ↔ (p c ∨ c = lock) ∧ c ≠ lock := by
  constructor
  · intro hc
    exact ⟨.inl hc, fun heq ↦ hp (heq ▸ hc)⟩
  · rintro ⟨hc | hc, hne⟩
    · exact hc
    · exact absurd hc hne

/-! ## `raw_spin_rq_lock_nested` -/

omit [DecidableEq C] in
/-- What is owned once the lock that `__rq_lockp` names is taken. -/
theorem Goal.owns_done (goal : Goal C) (rq : C) :
    (goal.done rq).Owns K k c ↔ c = k.__rqLockp rq ∨ goal.Owns k c := by
  cases goal with
  | second rq1 => exact or_comm
  | _ => simp [Goal.done, Pc.Owns, Goal.Owns]

omit [DecidableEq C] in
theorem Goal.tidy_done (goal : Goal C) (rq : C) : (goal.done rq).Tidy K k := by
  cases goal <;> trivial

omit [DecidableEq C] in
/-- The stage does not matter for two locks to be different, as long as what has been read is
another one than the first. -/
theorem Pc.Tidy.stage {goal : Goal C} {rq : C} {stage stage' : Stage C}
    (h : (Pc.acquire goal rq stage).Tidy K k)
    (hstage : ∀ lock, stage'.lock k rq = some lock →
      stage.lock k rq = some lock ∨ lock = k.__rqLockp rq) :
    (Pc.acquire goal rq stage').Tidy K k := by
  cases goal with
  | second rq1 =>
      refine ⟨h.1, fun lock hlock ↦ ?_⟩
      rcases hstage lock hlock with hold | rfl
      · exact h.2 lock hold
      · exact h.1
  | _ => trivial

omit [DecidableEq C] in
/-- The lock that is waited for is not one that is owned. -/
theorem Pc.Tidy.not_owns {goal : Goal C} {rq lock : C} {stage : Stage C}
    (h : (Pc.acquire goal rq stage).Tidy K k)
    (hlock : stage.lock k rq = some lock ∨ lock = k.__rqLockp rq) : ¬goal.Owns k lock := by
  cases goal with
  | second rq1 =>
      rcases hlock with hlock | rfl
      · exact h.2 lock hlock
      · exact h.1
  | _ => exact fun hno ↦ hno

theorem Owned.spin (h : Owned K s) {goal : Goal C} {lock : C} (pc : Pc C)
    (hold : goal = .trylock → ∀ c, ¬(s.pc t).Owns K s.cores c)
    (hmine : ∀ c, pc.Owns K s.cores c ↔ c = lock ∨ (s.pc t).Owns K s.cores c)
    (htidy : pc.Tidy K s.cores) (hs : s.spin t goal lock pc = some s') : Owned K s' := by
  simp only [State.spin] at hs
  split_ifs at hs with hfree htry
  · exact Option.some.inj hs ▸ h.take hfree pc hmine htidy
  · exact Option.some.inj hs ▸ h.keep (named_refl s) .out rfl rfl
      (fun c ↦ iff_of_false (fun hno ↦ hno) (hold htry c)) trivial

theorem Owned.rawSpinRqLock (h : Owned K s) (hswitch : Switch K s) {goal : Goal C} {rq : C}
    {stage : Stage C} (hpc : s.pc t = .acquire goal rq stage)
    (hs : s.rawSpinRqLock t goal rq stage = some s') : Owned K s' := by
  have htidy : (Pc.acquire goal rq stage).Tidy K s.cores := hpc ▸ h.tidy t
  have hold : ∀ c, (s.pc t).Owns K s.cores c ↔ goal.Owns s.cores c ∨ stage.Owns c := fun c ↦ by
    rw [hpc]
    rfl
  cases stage with
  | entry =>
      refine Option.some.inj hs ▸ h.keep (named_refl s) _ rfl rfl (fun c ↦ ?_) ?_ <;> split_ifs
      · exact (hold c).symm
      · exact (hold c).symm
      · exact htidy.stage (by simp [Stage.lock])
      · exact htidy.stage (by simp [Stage.lock])
  | plain =>
      -- no flag is set, so `rq->__lock` is the lock of the run queue
      have hoff : s.Knows K (.acquire goal rq .plain) := hpc ▸ hswitch.knows t
      have hself : s.cores.__rqLockp rq = rq := by simp [Cores.__rqLockp, hoff rq]
      refine h.spin _ (fun htry c ↦ ?_) (fun c ↦ ?_) (goal.tidy_done rq) hs
      · simp [hold, htry, Goal.Owns, Stage.Owns]
      · rw [Goal.owns_done, hself, hold]
        simp [Stage.Owns]
  | reread =>
      refine Option.some.inj hs ▸ h.keep (named_refl s) _ rfl rfl (fun c ↦ ?_) ?_ <;>
        split_ifs with hon
      · exact (hold c).symm
      · exact (hold c).symm
      · refine htidy.stage fun lock hlock ↦ .inr ?_
        simp [Cores.__rqLockp, hon, ← Option.some.inj hlock]
      · refine htidy.stage fun lock hlock ↦ .inr ?_
        simp [Cores.__rqLockp, hon, ← Option.some.inj hlock]
  | readCore =>
      exact Option.some.inj hs ▸ h.keep (named_refl s) _ rfl rfl (fun c ↦ (hold c).symm)
        (htidy.stage fun _ hlock ↦ .inl hlock)
  | wait lock =>
      refine h.spin (.acquire goal rq (.check lock)) (fun htry c ↦ ?_) (fun c ↦ ?_)
        (htidy.stage fun _ hlock ↦ .inl hlock) hs
      · simp [hold, htry, Goal.Owns, Stage.Owns]
      · rw [hold]
        simp only [Pc.Owns, Stage.Owns, or_false]
        exact or_comm
  | check lock =>
      simp only [State.rawSpinRqLock] at hs
      split_ifs at hs with heq
      · refine Option.some.inj hs ▸ h.keep (named_refl s) _ rfl rfl (fun c ↦ ?_) (goal.tidy_done rq)
        rw [hold]
        refine (goal.owns_done rq).trans ?_
        exact or_comm.trans (or_congr Iff.rfl (by rw [heq]; rfl))
      · refine Option.some.inj hs ▸ h.drop ((hold lock).mpr (.inr rfl)) _ (fun c ↦ ?_)
          (htidy.stage (by simp [Stage.lock]))
        have hnot : ¬goal.Owns s.cores lock := htidy.not_owns (.inl rfl)
        rw [hold]
        simp only [Pc.Owns, Stage.Owns, or_false]
        exact dropped_iff hnot c

theorem Owned.compare (h : Owned K s) {rq1 rq2 : C} (hpc : s.pc t = .compare rq1 rq2) :
    Owned K (s.goto t (if s.cores.__rqLockp rq1 = s.cores.__rqLockp rq2 then .both rq1 rq2
      else .acquire (.second rq1) rq2 .entry)) := by
  refine h.keep (named_refl s) _ rfl rfl (fun c ↦ ?_) ?_ <;> split_ifs with heq
  · simp [hpc, Pc.Owns, State.goto, heq]
  · simp [hpc, Pc.Owns, Goal.Owns, Stage.Owns, State.goto]
  · trivial
  · exact ⟨Ne.symm heq, by simp [Stage.lock]⟩

/-! ## `raw_spin_rq_unlock` -/

omit [DecidableEq T] [DecidableEq C] in
/-- The static key is on as long as one `core_enabled` is set, so `rq_lockp` and `__rq_lockp`
agree. -/
theorem Switch.rqLockp_eq (h : Switch K s) (rq : C) :
    s.cores.rqLockp rq = s.cores.__rqLockp rq := by
  cases hon : s.cores.coreEnabled rq with
  | true => simp [Cores.rqLockp, Cores.__rqLockp, hon, h.key rq hon]
  | false => simp [Cores.rqLockp, Cores.__rqLockp, hon]

theorem Owned.rawSpinRqUnlock (h : Owned K s) (hswitch : Switch K s)
    (hs : s.rawSpinRqUnlock t = some s') : Owned K s' := by
  simp only [State.rawSpinRqUnlock, hswitch.rqLockp_eq] at hs
  split at hs
  · rename_i rq hpc
    refine Option.some.inj hs ▸ h.drop (by simp [hpc, Pc.Owns]) .out (fun c ↦ ?_) trivial
    simp [hpc, Pc.Owns]
  · rename_i rq1 rq2 hpc
    split_ifs at hs with hne
    · refine Option.some.inj hs ▸ h.drop (by simp [hpc, Pc.Owns]) (.holds rq1) (fun c ↦ ?_) trivial
      simp only [hpc, Pc.Owns]
      exact dropped_iff (p := (· = s.cores.__rqLockp rq1)) (Ne.symm hne) c
    · refine Option.some.inj hs ▸ h.keep (named_refl s) (.holds rq1) rfl rfl (fun c ↦ ?_) trivial
      simp [hpc, Pc.Owns, State.goto, not_not.mp hne]
  · simp at hs

/-! ## `sched_core_lock` -/

omit [DecidableEq T] [DecidableEq C] in
/-- The head of what is left of a mask is in the mask, and not in the rest. -/
theorem head_of_suffix {rest mask : List C} (hnodup : mask.Nodup) (h : c :: rest <:+ mask) :
    c ∈ mask ∧ c ∉ rest :=
  ⟨h.subset (by simp), (List.nodup_cons.mp (hnodup.sublist h.sublist)).1⟩

theorem Owned.body (h : Owned K s) (hmasks : Masks K s) (hmasks' : Masks K s') {job : Job C}
    (hpc : s.pc t = .core job cpu .body)
    (hs : s.schedCoreLock K t job cpu .body = some s') : Owned K s' := by
  have hcores : s'.cores = (s.cores.body K job cpu).1 := Option.some.inj hs ▸ rfl
  have hcpu : job = .starting → s.cores.smt cpu = true := fun hjob ↦ by
    have hknows : s.cores.Knows K (.core .starting cpu .body) := hjob ▸ hpc ▸ hmasks.knows t
    exact hknows.1
  have hrenames : Renames (s.cores.cpuSmtMask K cpu) s.cores s'.cores :=
    hcores ▸ hmasks.led.renames (hcores ▸ hmasks'.led) hcpu
  have hmine : ∀ c, s.owner c = some t ↔ c ∈ s.cores.cpuSmtMask K cpu := fun c ↦ by
    rw [h.own, hpc]
    rfl
  -- nobody else owns a spinlock of the mask
  have hfree : ∀ u, u ≠ t → ∀ c ∈ s.cores.cpuSmtMask K cpu, ¬(s.pc u).Owns K s.cores c := by
    intro u hu c hc hown
    have := ((h.own c u).mpr hown).symm.trans ((hmine c).mpr hc)
    exact hu (Option.some.inj this)
  have howner : s'.owner = s.owner := Option.some.inj hs ▸ rfl
  refine h.move (.core job cpu (.unlock (s.cores.cpuSmtMask K cpu))) (Option.some.inj hs ▸ rfl)
    (fun u hu ↦ ⟨hrenames.owns_iff (hfree u hu), hrenames.tidy (hfree u hu) (h.tidy u)⟩)
    (fun c u _ ↦ by rw [howner]) (fun c ↦ ?_) ?_
  · rw [howner, hmine]
    rfl
  · rw [Pc.Tidy, hrenames.cpuSmtMask]

theorem Owned.afterUnlock (h : Owned K s) {job : Job C}
    (hpc : s.pc t = .core job cpu (.unlock [])) : Owned K (s.afterUnlock K t job cpu) := by
  have hold : ∀ c, False ↔ (s.pc t).Owns K s.cores c := fun c ↦ by simp [hpc, Pc.Owns, Phase.Owns]
  cases job with
  | flip enabled mask => exact h.keep (named_refl s) _ rfl rfl hold trivial
  | starting =>
      exact h.keep ⟨fun _ ↦ rfl, rfl, fun _ _ _ _ _ ↦ rfl⟩ .out rfl rfl hold trivial
  | deactivate => exact h.keep (named_refl s) .out rfl rfl hold trivial

theorem Owned.schedCoreLock (h : Owned K s) (hmasks : Masks K s) (hmasks' : Masks K s')
    {job : Job C} {phase : Phase C} (hpc : s.pc t = .core job cpu phase)
    (hs : s.schedCoreLock K t job cpu phase = some s') : Owned K s' := by
  have htidy : (Pc.core job cpu phase).Tidy K s.cores := hpc ▸ h.tidy t
  have hnodup := nodup_cpuSmtMask K s.cores cpu
  cases phase with
  | lock rest =>
      cases rest with
      | nil =>
          refine Option.some.inj hs ▸ h.keep (named_refl s) _ rfl rfl (fun c ↦ ?_) trivial
          simp [hpc, Pc.Owns, Phase.Owns, State.goto]
      | cons c rest =>
          obtain ⟨hc, hrest⟩ := head_of_suffix hnodup htidy
          simp only [State.schedCoreLock] at hs
          split_ifs at hs with hfree
          refine Option.some.inj hs ▸ h.take hfree (.core job cpu (.lock rest)) (fun d ↦ ?_)
            ((List.suffix_cons c rest).trans htidy)
          by_cases hd : d = c
          · simp [hd, Pc.Owns, Phase.Owns, hc, hrest]
          · simp [hd, hpc, Pc.Owns, Phase.Owns]
  | body => exact h.body hmasks hmasks' hpc hs
  | unlock rest =>
      cases rest with
      | nil => exact Option.some.inj hs ▸ h.afterUnlock hpc
      | cons c rest =>
          obtain ⟨-, hrest⟩ := head_of_suffix hnodup htidy
          refine Option.some.inj hs ▸ h.drop (by simp [hpc, Pc.Owns, Phase.Owns])
            (.core job cpu (.unlock rest)) (fun d ↦ ?_) ((List.suffix_cons c rest).trans htidy)
          by_cases hd : d = c
          · simp [hd, Pc.Owns, Phase.Owns, hrest]
          · simp [hd, hpc, Pc.Owns, Phase.Owns]

/-! ## Steps without a spinlock -/

omit [DecidableEq T] [DecidableEq C] in
theorem not_owns_of_not_atomic (h : pc.atomic = false) (c : C) : ¬pc.Owns K k c := by
  cases pc <;> first | exact fun hno ↦ hno | simp [Pc.atomic] at h

omit [DecidableEq T] [DecidableEq C] in
theorem tidy_of_not_atomic (h : pc.atomic = false) : pc.Tidy K k := by
  cases pc <;> trivial

omit [DecidableEq C] in
theorem Owned.idle (h : Owned K s) (hold : (s.pc t).atomic = false)
    (hn : Named K s s'.cores) (pc : Pc C) (hpc : s'.pc = Function.update s.pc t pc)
    (howner : s'.owner = s.owner) (hnew : pc.atomic = false) : Owned K s' :=
  h.keep hn pc hpc howner
    (fun c ↦ iff_of_false (not_owns_of_not_atomic hnew c) (not_owns_of_not_atomic hold c))
    (tidy_of_not_atomic hnew)

omit [DecidableEq C] in
/-- Before `sched_core_lock` has taken anything. -/
theorem Owned.enter (h : Owned K s) (hold : (s.pc t).atomic = false)
    (hn : Named K s s'.cores) (job : Job C) (cpu : C)
    (hpc : s'.pc = Function.update s.pc t (.core job cpu (.lock (s'.cores.cpuSmtMask K cpu))))
    (howner : s'.owner = s.owner) : Owned K s' :=
  h.keep hn _ hpc howner
    (fun c ↦ iff_of_false (fun hno ↦ hno.2 hno.1) (not_owns_of_not_atomic hold c)) List.suffix_rfl

variable [Fintype T]

omit [Fintype T] [DecidableEq T] [DecidableEq C] in
/-- A CPU that is not online is in no mask while nobody changes the masks. -/
theorem Masks.smt_eq_false (h : Masks K s) (hidle : s.hotplug = .idle)
    (hc : s.cores.online c = false) : s.cores.smt c = false := by
  by_contra hsmt
  rcases h.smt_online c (by simpa using hsmt) with hon | ⟨t, ht⟩
  · simp [hc] at hon
  · simp [hidle] at ht

theorem Owned.flip (h : Owned K s) (hroles : Roles s) (hswitch : Switch K s) (hmasks : Masks K s)
    {pc : Pc C} (hpc : s.pc t = pc) (hs : s.flip K t pc = some s') : Owned K s' := by
  cases pc with
  | flipStart enabled =>
      simp only [State.flip] at hs
      split_ifs at hs
      exact Option.some.inj hs ▸ h.idle (by rw [hpc]; rfl) (named_refl s) _ rfl rfl rfl
  | flipNext enabled mask =>
      cases mask with
      | nil => exact Option.some.inj hs ▸ h.idle (by rw [hpc]; rfl) (named_refl s) _ rfl rfl rfl
      | cons cpu mask =>
          exact Option.some.inj hs ▸ h.enter (by rw [hpc]; rfl) (named_refl s) _ cpu rfl rfl
  | flipOffline enabled rest =>
      cases rest with
      | nil =>
          refine Option.some.inj hs ▸ h.idle (by rw [hpc]; rfl) (named_refl s) _ rfl rfl ?_
          split_ifs <;> rfl
      | cons c rest =>
          -- the CPU is its own leader, so its lock is the same with the flag and without
          have hknows : s.Knows K (.flipOffline enabled (c :: rest)) := hpc ▸ hswitch.knows t
          have hidle : s.hotplug = .idle := hroles.idle_of_reads (t := t) (by rw [hpc]; rfl)
          have hself : s.cores.core c = c :=
            hmasks.led.out c (hmasks.smt_eq_false hidle (hknows.2.2.1 c (by simp)))
          refine Option.some.inj hs ▸ h.idle (by rw [hpc]; rfl)
            ⟨fun rq ↦ ?_, rfl, fun _ _ _ _ _ ↦ rfl⟩ (.flipOffline enabled rest) rfl rfl rfl
          by_cases hrq : rq = c
          · simp [Cores.__rqLockp, hrq, hself]
          · simp [Cores.__rqLockp, hrq]
  | _ => simp [State.flip] at hs

omit [DecidableEq C] in
theorem Owned.counts (h : Owned K s) {pc : Pc C} (hpc : s.pc t = pc)
    (hs : s.count t pc = some s') : Owned K s' := by
  have hnamed : ∀ on, Named K s { s.cores with schedCoreEnabled := on } :=
    fun on ↦ ⟨fun _ ↦ rfl, rfl, fun _ _ _ _ _ ↦ rfl⟩
  cases pc with
  | getMutex | putMutex | sync =>
      simp only [State.count] at hs
      split_ifs at hs
      exact Option.some.inj hs ▸ h.idle (by rw [hpc]; rfl) (named_refl s) _ rfl rfl rfl
  | getTest =>
      refine Option.some.inj hs ▸ h.idle (by rw [hpc]; rfl) (named_refl s) _ rfl rfl ?_
      split_ifs <;> rfl
  | enable | disable =>
      exact Option.some.inj hs ▸ h.idle (by rw [hpc]; rfl) (hnamed _) _ rfl rfl rfl
  | getInc => exact Option.some.inj hs ▸ h.idle (by rw [hpc]; rfl) (named_refl s) _ rfl rfl rfl
  | putDec | putTest =>
      simp only [State.count] at hs
      split_ifs at hs <;>
        exact Option.some.inj hs ▸ h.idle (by rw [hpc]; rfl) (named_refl s) _ rfl rfl rfl
  | _ => simp [State.count] at hs

/-! ## Every step -/

theorem Owned.cont (h : Owned K s) (hroles : Roles s) (hswitch : Switch K s) (hmasks : Masks K s)
    (hmasks' : Masks K s') (hs : s.cont K t = some s') : Owned K s' := by
  simp only [State.cont] at hs
  split at hs
  · exact h.rawSpinRqLock hswitch ‹_› hs
  · exact Option.some.inj hs ▸ h.compare ‹_›
  · exact h.schedCoreLock hmasks hmasks' ‹_› hs
  · exact h.flip hroles hswitch hmasks ‹_› hs
  · exact h.flip hroles hswitch hmasks ‹_› hs
  · exact h.flip hroles hswitch hmasks ‹_› hs
  · exact h.counts rfl hs

omit [DecidableEq T] [DecidableEq C] in
/-- While CPU hotplug is idle and nobody holds `cpus_read_lock`, nobody is in
`sched_core_lock`. -/
theorem Roles.not_core (h : Roles s) (hidle : s.hotplug = .idle)
    (hreads : ∀ u, s.cpusRead u = false) (u : T) (job : Job C) (cpu : C) (phase : Phase C) :
    s.pc u ≠ .core job cpu phase := by
  intro hpc
  have hread := (h.reads u).symm.trans (hreads u)
  have hchange := h.no_change (u := u) (by simp [hidle])
  cases job <;> simp [hpc, Pc.duty, Job.duty] at hread hchange

theorem Owned.next (h : Owned K s) (hroles : Roles s) (hswitch : Switch K s) (hmasks : Masks K s)
    {l : Label T C} (hs : next K s l = some s') : Owned K s' := by
  have hmasks' : Masks K s' := hmasks.next hroles hswitch hs
  cases l with
  | lock t rq | trylock t rq | doubleLock t rq1 rq2 =>
      simp only [RqLock.next] at hs
      split_ifs at hs with hpc
      refine Option.some.inj hs ▸ h.keep (named_refl s) _ rfl rfl (fun c ↦ ?_) trivial
      simp [hpc, Pc.Owns, Goal.Owns, Stage.Owns]
  | unlock t => exact h.rawSpinRqUnlock hswitch hs
  | cont t => exact h.cont hroles hswitch hmasks hmasks' hs
  | get t =>
      simp only [RqLock.next] at hs
      split_ifs at hs with hpc
      · exact Option.some.inj hs ▸ h.idle (by rw [hpc]; rfl) (named_refl s) _ rfl rfl rfl
      · exact Option.some.inj hs ▸ ⟨h.own, h.tidy⟩
  | put t =>
      simp only [RqLock.next] at hs
      split_ifs at hs <;> exact Option.some.inj hs ▸ ⟨h.own, h.tidy⟩
  | work t =>
      simp only [RqLock.next] at hs
      split_ifs at hs with hpc
      exact Option.some.inj hs ▸ h.idle (by rw [hpc.1]; rfl) (named_refl s) _ rfl rfl rfl
  | bringUp t cpu =>
      simp only [RqLock.next] at hs
      split_ifs at hs with hpc
      obtain ⟨hout, hidle, hreads, -⟩ := hpc
      have hnamed : Named K s { s.cores with smt := Function.update s.cores.smt cpu true } :=
        ⟨fun _ ↦ rfl, rfl, fun u job c phase hu ↦
          absurd hu (hroles.not_core hidle hreads u job c phase)⟩
      exact Option.some.inj hs ▸ h.enter (by rw [hout]; rfl) hnamed _ cpu rfl rfl
  | takeDown t cpu =>
      simp only [RqLock.next] at hs
      split_ifs at hs with hpc
      exact Option.some.inj hs ▸ h.enter (by rw [hpc.1]; rfl) (named_refl s) _ cpu rfl rfl
  | dying =>
      simp only [RqLock.next] at hs
      split at hs
      · split_ifs at hs with hatomic
        obtain rfl := Option.some.inj hs
        refine ⟨fun c u ↦ ?_, fun u ↦ tidy_of_not_atomic (hatomic u)⟩
        rw [h.own]
        exact iff_of_false (not_owns_of_not_atomic (hatomic u) c)
          (not_owns_of_not_atomic (hatomic u) c)
      · simp at hs
  | downFailed =>
      simp only [RqLock.next] at hs
      split at hs
      · exact Option.some.inj hs ▸ ⟨h.own, h.tidy⟩
      · simp at hs

omit [Fintype T] [DecidableEq T] in
theorem owned_init (K : Topology C) (boot : C) : Owned K (State.init boot : State T C) :=
  ⟨fun _ _ ↦ iff_of_false (by simp [State.init]) fun hno ↦ hno, fun _ ↦ trivial⟩

/-! ## What the locks give -/

section

variable (K : Topology C) (k : Cores C)

/-- The run queues that a thread has locked: between `raw_spin_rq_lock_nested` and
`raw_spin_rq_unlock` one or two, between `sched_core_lock` and `sched_core_unlock` those of
a core. -/
def Pc.Holds : Pc C → C → Prop
  | .acquire (.second rq1) _ _, rq | .compare rq1 _, rq | .holds rq1, rq => rq = rq1
  | .both rq1 rq2, rq => rq = rq1 ∨ rq = rq2
  | .core _ cpu .body, rq => rq ∈ k.cpuSmtMask K cpu
  | _, _ => False

/-- The spinlock that a thread tries to take next. -/
def Pc.Awaits : Pc C → C → Prop
  | .acquire _ rq .plain, c => c = rq
  | .acquire _ _ (.wait lock), c => c = lock
  | .core _ _ (.lock (d :: _)), c => c = d
  | _, _ => False

end

omit [DecidableEq T] [DecidableEq C] [Fintype T] in
theorem Pc.Holds.owns (h : pc.Holds K k c) (hled : k.Led K) : pc.Owns K k (k.__rqLockp c) := by
  cases pc with
  | acquire goal rq stage =>
      cases goal with
      | second rq1 => exact .inl (congrArg k.__rqLockp h)
      | _ => exact h.elim
  | compare rq1 rq2 | holds rq1 => exact congrArg k.__rqLockp h
  | both rq1 rq2 => exact h.imp (congrArg k.__rqLockp) (congrArg k.__rqLockp)
  | core job cpu phase =>
      cases phase with
      | body => exact rqLockp_mem h (hled.core_mem h)
      | _ => exact h.elim
  | _ => exact h.elim

omit [DecidableEq T] [DecidableEq C] [Fintype T] in
/-- No thread tries to take what it owns. -/
theorem Pc.Awaits.not_owns {s : State T C} (h : pc.Awaits c) (hknows : s.Knows K pc)
    (htidy : pc.Tidy K s.cores) : ¬pc.Owns K s.cores c := by
  cases pc with
  | acquire goal rq stage =>
      cases stage with
      | plain =>
          -- no flag is set, so `rq->__lock` is what `__rq_lockp` names
          have hself : s.cores.__rqLockp rq = rq := by simp [Cores.__rqLockp, hknows rq]
          have hnot : ¬goal.Owns s.cores c := htidy.not_owns (.inr (h.trans hself.symm))
          exact fun hown ↦ hown.elim hnot id
      | wait lock =>
          have hnot : ¬goal.Owns s.cores c := htidy.not_owns (.inl (congrArg some h.symm))
          exact fun hown ↦ hown.elim hnot id
      | _ => exact h.elim
  | core job cpu phase =>
      cases phase with
      | lock rest =>
          cases rest with
          | nil => exact h.elim
          | cons d rest => exact fun hown ↦ hown.2 (by simp [show c = d from h])
      | _ => exact h.elim
  | _ => exact h.elim

/-- What holds of the locks in a state that can be reached. -/
structure State.LocksSound (K : Topology C) (s : State T C) : Prop where
  /-- A run queue is locked by one thread. -/
  exclusive : ∀ rq t u, (s.pc t).Holds K s.cores rq → (s.pc u).Holds K s.cores rq → t = u
  /-- So is a core for which core scheduling is on. -/
  core_exclusive : ∀ c d t u, s.cores.online c = true → s.cores.online d = true →
    d ∈ K.siblings c → s.cores.coreEnabled c = true →
    (s.pc t).Holds K s.cores c → (s.pc u).Holds K s.cores d → t = u
  /-- The lock that `raw_spin_rq_unlock` drops is the one that was taken. -/
  owns : ∀ rq t, (s.pc t).Holds K s.cores rq → s.owner (s.cores.rqLockp rq) = some t
  /-- No thread waits for itself. -/
  awaits : ∀ c t, (s.pc t).Awaits c → s.owner c ≠ some t
  /-- Whoever is outside has no spinlock left. -/
  released : ∀ t, (s.pc t).atomic = false → ∀ c, s.owner c ≠ some t
  /-- No `WARN_ON_ONCE` of the hotplug callbacks fires. -/
  quiet : s.warned = false

structure Sound (K : Topology C) (s : State T C) : Prop where
  roles : Roles s
  switch : Switch K s
  masks : Masks K s
  owned : Owned K s

omit [DecidableEq T] in
theorem sound_init (K : Topology C) (boot : C) : Sound K (State.init boot : State T C) :=
  ⟨roles_init boot, switch_init boot, masks_init K boot, owned_init K boot⟩

theorem Sound.step (h : Sound K s) (l : Label T C) : Sound K (step K s l) := by
  rw [RqLock.step]
  cases hs : RqLock.next K s l with
  | none => exact h
  | some s' =>
      exact ⟨h.roles.next hs, h.switch.next h.roles hs, h.masks.next h.roles h.switch hs,
        h.owned.next h.roles h.switch h.masks hs⟩

omit [DecidableEq T] [DecidableEq C] in
theorem Sound.locksSound (h : Sound K s) : s.LocksSound K := by
  have howns : ∀ rq t, (s.pc t).Holds K s.cores rq →
      s.owner (s.cores.__rqLockp rq) = some t :=
    fun rq t hrq ↦ (h.owned.own _ t).mpr (hrq.owns h.masks.led)
  have honly : ∀ rq rq' t u, s.cores.__rqLockp rq = s.cores.__rqLockp rq' →
      (s.pc t).Holds K s.cores rq → (s.pc u).Holds K s.cores rq' → t = u := by
    intro rq rq' t u heq ht hu
    exact Option.some.inj ((howns rq t ht).symm.trans (heq ▸ howns rq' u hu))
  refine ⟨fun rq t u ↦ honly rq rq t u rfl, fun c d t u hc hd hsib hon ↦ ?_, fun rq t hrq ↦ ?_,
    fun c t hc ↦ ?_, fun t hout c ↦ ?_, h.masks.quiet⟩
  · -- both name the lock of their leader
    refine honly c d t u ?_
    have hon' : s.cores.coreEnabled d = true := (h.masks.uniform c d hc hd hsib).trans hon
    simp [Cores.__rqLockp, hon, hon', h.masks.led.shared c d hc hd hsib]
  · rw [h.switch.rqLockp_eq]
    exact howns rq t hrq
  · rw [ne_eq, h.owned.own]
    exact hc.not_owns (h.switch.knows t) (h.owned.tidy t)
  · rw [ne_eq, h.owned.own]
    exact not_owns_of_not_atomic hout c

/-- However threads lock and unlock run queues, switch core scheduling on and off and bring
CPUs up and down, a run queue never has two holders. -/
theorem rqLock_exclusive (K : Topology C) (boot : C) (ls : List (Label T C)) :
    AllStates (step K) (State.LocksSound K) (State.init boot) ls := by
  have hsound : AllStates (RqLock.step K) (Sound K) (State.init boot : State T C) ls :=
    allStates_of_step (fun s l h ↦ h.step l) (sound_init K boot) ls
  exact hsound.imp fun s h ↦ h.locksSound

/-- The second CPU comes up and core scheduling is switched on; a thread reads which
spinlock is its lock between `static_branch_enable` and the flip. -/
def lateSwitchRun : List (Label Bool Bool) :=
  .bringUp true true :: List.replicate 7 (.cont true) ++
    .get false :: List.replicate 4 (.cont false) ++
    .lock true true :: List.replicate 2 (.cont true) ++
    List.replicate 12 (.cont false) ++ List.replicate 6 (.cont true)

-- the spinlock it waited for is not the lock any more: it is dropped, the leader's is taken
example :
    let s := run (step smtPair) (State.init false) lateSwitchRun
    let waiting := run (step smtPair) (State.init false) (lateSwitchRun.take 29)
    waiting.pc true = .acquire .single true (.check true) ∧ waiting.owner true = some true ∧
      s.pc true = .holds true ∧ s.owner true = none ∧ s.owner false = some true ∧
      s.schedCoreCount = 1 := by
  decide +kernel

end NcuKernel.RqLock
