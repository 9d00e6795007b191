import NcuKernel.CoreSched.RqLock
import NcuKernel.Library.Counting
import Mathlib.Algebra.Order.BigOperators.Group.Finset

/-!
# Who switches core scheduling on and off

The mutex, the CPU hotplug lock and the work item decide which thread may touch what.
From the place where a thread is one can read off which of them it holds.
-/

namespace NcuKernel.RqLock

open Runs Counting

/-- What a thread holds besides spinlocks. -/
structure Duty (C : Type*) where
  mutex : Bool := false
  reads : Bool := false
  changes : Option C := none
  /-- The thread is going to drop one reference. -/
  puts : Bool := false

def Job.duty {C : Type*} (cpu : C) : Job C → Duty C
  | .flip .. => { mutex := true, reads := true }
  | .starting | .deactivate => { changes := some cpu }

def Pc.duty {C : Type*} : Pc C → Duty C
  | .core job cpu _ => job.duty cpu
  | .flipStart _ => { mutex := true }
  | .flipNext .. | .flipOffline .. => { mutex := true, reads := true }
  | .getTest | .enable | .sync | .getInc | .disable => { mutex := true }
  | .putDec | .putMutex => { puts := true }
  | .putTest => { mutex := true, puts := true }
  | _ => {}

variable {T C : Type*} [Fintype T] [DecidableEq T] [DecidableEq C]
  {K : Topology C} {s s' : State T C} {t : T}

/-- The mutex, the hotplug lock and the count agree with the places of the threads. -/
structure Roles (s : State T C) : Prop where
  mutex : ∀ t, s.schedCoreMutex = some t ↔ (s.pc t).duty.mutex = true
  reads : ∀ t, s.cpusRead t = (s.pc t).duty.reads
  changes : ∀ t c, s.hotplug = .changing t c ↔ (s.pc t).duty.changes = some c
  apart : s.hotplug ≠ .idle → ∀ t, s.cpusRead t = false
  count : s.schedCoreCount = s.refs + s.workPending.toNat + ∑ t, (s.pc t).duty.puts.toNat

/-- A lock that thread `t` keeps as it is, takes or drops, and whether its place says that
it has the lock. -/
inductive Handover (t : T) : Option T → Option T → Bool → Bool → Prop where
  | keep (m : Option T) (b : Bool) : Handover t m m b b
  | take : Handover t none (some t) false true
  | drop : Handover t (some t) none true false

omit [Fintype T] [DecidableEq T] in
theorem Handover.iff_self {m m' : Option T} {b b' : Bool} (h : Handover t m m' b b')
    (hb : m = some t ↔ b = true) : m' = some t ↔ b' = true := by
  cases h with
  | keep => exact hb
  | take | drop => simp

omit [Fintype T] [DecidableEq T] in
theorem Handover.iff_of_ne {m m' : Option T} {b b' : Bool} (h : Handover t m m' b b') {u : T}
    (hu : u ≠ t) : m' = some u ↔ m = some u := by
  cases h with
  | keep => rfl
  | take | drop => simp [hu.symm]

omit [DecidableEq C] in
/-- Thread `t` goes from `old` to `pc` and gives up or takes over what goes with it. -/
theorem Roles.move (h : Roles s) (old pc : Pc C) (hold : s.pc t = old)
    (hpc : s'.pc = Function.update s.pc t pc)
    (hmutex : Handover t s.schedCoreMutex s'.schedCoreMutex old.duty.mutex pc.duty.mutex)
    (hreads : s'.cpusRead = Function.update s.cpusRead t pc.duty.reads)
    (hchanges : ∀ u c, s'.hotplug = .changing u c ↔
      if u = t then pc.duty.changes = some c else s.hotplug = .changing u c)
    (hapart : s'.hotplug ≠ .idle → ∀ u, s'.cpusRead u = false)
    (hcount : s'.schedCoreCount + (s.refs + s.workPending.toNat + old.duty.puts.toNat) =
      s.schedCoreCount + (s'.refs + s'.workPending.toNat + pc.duty.puts.toNat)) : Roles s' where
  mutex u := by
    rw [hpc]
    by_cases hu : u = t
    · subst hu
      simpa using hmutex.iff_self (by rw [h.mutex, hold])
    · simpa [hu] using (hmutex.iff_of_ne hu).trans (h.mutex u)
  reads u := by
    rw [hreads, hpc]
    by_cases hu : u = t
    · simp [hu]
    · simpa [hu] using h.reads u
  changes u c := by
    rw [hchanges u c, hpc]
    by_cases hu : u = t
    · simp [hu]
    · simpa [hu] using h.changes u c
  apart := hapart
  count := by
    have hsum := sum_add_of_eq_off (f := fun u ↦ (s.pc u).duty.puts.toNat)
      (g := fun u ↦ (s'.pc u).duty.puts.toNat) t fun u hu ↦ by simp [hpc, hu]
    have hself : (s'.pc t).duty.puts.toNat = pc.duty.puts.toNat := by simp [hpc]
    have hcount' := h.count
    simp only [hself, hold] at hsum
    omega

omit [DecidableEq C] in
/-- A step that takes or drops only the mutex and references. -/
theorem Roles.counting (h : Roles s) (old pc : Pc C) (hold : s.pc t = old)
    (hpc : s'.pc = Function.update s.pc t pc)
    (hmutex : Handover t s.schedCoreMutex s'.schedCoreMutex old.duty.mutex pc.duty.mutex)
    (hreads : pc.duty.reads = old.duty.reads) (hchanges : pc.duty.changes = old.duty.changes)
    (hfields : s'.cpusRead = s.cpusRead ∧ s'.hotplug = s.hotplug)
    (hcount : s'.schedCoreCount + (s.refs + s.workPending.toNat + old.duty.puts.toNat) =
      s.schedCoreCount + (s'.refs + s'.workPending.toNat + pc.duty.puts.toNat)) : Roles s' := by
  obtain ⟨hr, hh⟩ := hfields
  refine h.move old pc hold hpc hmutex ?_ (fun u c ↦ ?_) ?_ hcount
  · rw [hr, hreads, ← hold, ← h.reads, Function.update_eq_self]
  · by_cases hu : u = t
    · simp [hu, hh, hchanges, h.changes, hold]
    · simp [hu, hh]
  · rw [hr, hh]
    exact h.apart

/-- A step that changes nothing but spinlocks, what names them, and the place of one
thread, whose duties stay the same. -/
structure Dutiful (t : T) (s s' : State T C) : Prop where
  pc : ∀ u, u ≠ t → s'.pc u = s.pc u
  duty : (s'.pc t).duty = (s.pc t).duty
  mutex : s'.schedCoreMutex = s.schedCoreMutex
  reads : s'.cpusRead = s.cpusRead
  hotplug : s'.hotplug = s.hotplug
  count : s'.schedCoreCount = s.schedCoreCount
  refs : s'.refs = s.refs
  work : s'.workPending = s.workPending

omit [DecidableEq C] [DecidableEq T] in
theorem Roles.dutiful (h : Roles s) (hs : Dutiful t s s') : Roles s' := by
  have hduty : ∀ u, (s'.pc u).duty = (s.pc u).duty := fun u ↦ by
    by_cases hu : u = t
    · rw [hu, hs.duty]
    · rw [hs.pc u hu]
  constructor
  · intro u
    rw [hs.mutex, hduty, h.mutex]
  · intro u
    rw [hs.reads, hduty, h.reads]
  · intro u c
    rw [hs.hotplug, hduty, h.changes]
  · rw [hs.hotplug, hs.reads]
    exact h.apart
  · simp only [hs.count, hs.refs, hs.work, hduty, h.count]

omit [Fintype T] [DecidableEq C] in
theorem dutiful_goto {pc : Pc C} (hduty : pc.duty = (s.pc t).duty) : Dutiful t s (s.goto t pc) :=
  ⟨fun u hu ↦ by simp [State.goto, hu], by simp [State.goto, hduty], rfl, rfl, rfl, rfl, rfl, rfl⟩

/-! ## Spinlocks -/

/-- A step that takes or drops spinlocks and goes to `pc`. -/
structure SpinStep (t : T) (s s' : State T C) (pc : Pc C) : Prop where
  pc : s'.pc = Function.update s.pc t pc
  rest : s' = { s with owner := s'.owner, pc := s'.pc }

section SpinStep

omit [Fintype T]

omit [DecidableEq C] in
theorem spinStep_goto (t : T) (s : State T C) (pc : Pc C) : SpinStep t s (s.goto t pc) pc :=
  ⟨rfl, rfl⟩

theorem spinStep_own (t : T) (s : State T C) (lock : C) (o : Option T) (pc : Pc C) :
    SpinStep t s ((s.own lock o).goto t pc) pc :=
  ⟨rfl, rfl⟩

omit [DecidableEq C] in
theorem SpinStep.dutiful {pc : Pc C} (h : SpinStep t s s' pc) (hduty : pc.duty = (s.pc t).duty) :
    Dutiful t s s' := by
  have hrest := h.rest
  refine ⟨fun u hu ↦ by simp [h.pc, hu], by simp [h.pc, hduty], ?_, ?_, ?_, ?_, ?_, ?_⟩ <;>
    rw [hrest]

omit [DecidableEq T] [DecidableEq C] in
@[simp] theorem Goal.done_duty (goal : Goal C) (rq : C) : (goal.done rq).duty = {} := by
  cases goal <;> rfl

omit [DecidableEq T] [DecidableEq C] in
@[simp] theorem Goal.done_plain (goal : Goal C) (rq : C) : (goal.done rq).plain = false := by
  cases goal <;> rfl

theorem spinStep_spin {goal : Goal C} {lock : C} {pc : Pc C}
    (hs : s.spin t goal lock pc = some s') : SpinStep t s s' pc ∨ SpinStep t s s' .out := by
  simp only [State.spin] at hs
  split_ifs at hs
  · exact .inl (Option.some.inj hs ▸ spinStep_own ..)
  · exact .inr (Option.some.inj hs ▸ spinStep_goto ..)

/-- Only a thread that finds the static key off gets to wait for `rq->__lock`. -/
theorem spinStep_rawSpinRqLock {goal : Goal C} {rq : C} {stage : Stage C}
    (hs : s.rawSpinRqLock t goal rq stage = some s') :
    ∃ pc, SpinStep t s s' pc ∧ pc.duty = {} ∧
      (pc.plain = true → s.cores.schedCoreEnabled = false) := by
  cases stage with
  | entry =>
      refine ⟨_, Option.some.inj hs ▸ spinStep_goto .., rfl, ?_⟩
      split_ifs with hkey <;> simp [Pc.plain, hkey]
  | plain =>
      rcases spinStep_spin hs with h | h
      · exact ⟨_, h, by simp, by simp⟩
      · exact ⟨_, h, rfl, by simp [Pc.plain]⟩
  | reread =>
      refine ⟨_, Option.some.inj hs ▸ spinStep_goto .., rfl, ?_⟩
      split_ifs <;> simp [Pc.plain]
  | readCore => exact ⟨_, Option.some.inj hs ▸ spinStep_goto .., rfl, by simp [Pc.plain]⟩
  | wait lock =>
      rcases spinStep_spin hs with h | h <;> exact ⟨_, h, rfl, by simp [Pc.plain]⟩
  | check lock =>
      simp only [State.rawSpinRqLock] at hs
      split_ifs at hs
      · exact ⟨_, Option.some.inj hs ▸ spinStep_goto .., by simp, by simp⟩
      · exact ⟨_, Option.some.inj hs ▸ spinStep_own .., rfl, by simp [Pc.plain]⟩

theorem spinStep_rawSpinRqUnlock (hs : s.rawSpinRqUnlock t = some s') :
    (s.pc t).duty = {} ∧ ∃ pc, SpinStep t s s' pc ∧ pc.duty = {} ∧ pc.plain = false := by
  simp only [State.rawSpinRqUnlock] at hs
  split at hs
  · rename_i rq hpc
    exact ⟨by rw [hpc]; rfl, _, Option.some.inj hs ▸ spinStep_own .., rfl, rfl⟩
  · rename_i rq1 rq2 hpc
    refine ⟨by rw [hpc]; rfl, .holds rq1, ?_, rfl, rfl⟩
    split_ifs at hs
    · exact Option.some.inj hs ▸ spinStep_own ..
    · exact Option.some.inj hs ▸ spinStep_goto ..
  · simp at hs

omit [DecidableEq T] in
/-- `double_rq_lock` compares the two locks. -/
theorem duty_compare (s : State T C) (rq1 rq2 : C) :
    (if s.cores.__rqLockp rq1 = s.cores.__rqLockp rq2 then Pc.both rq1 rq2
      else .acquire (.second rq1) rq2 .entry).duty = {} := by
  split_ifs <;> rfl

end SpinStep

/-! ## Every step -/

theorem Roles.afterUnlock (h : Roles s) {job : Job C} {cpu : C}
    (hpc : s.pc t = .core job cpu (.unlock [])) : Roles (s.afterUnlock K t job cpu) := by
  cases job with
  | flip enabled mask => exact h.dutiful (dutiful_goto (by rw [hpc]; rfl))
  | starting | deactivate =>
      have hmine : s.hotplug = .changing t cpu := (h.changes t cpu).mpr (by rw [hpc]; rfl)
      have hreads := h.apart (by simp [hmine])
      refine h.move _ .out hpc rfl (.keep _ _) ?_ (fun u c ↦ ?_) (fun _ u ↦ hreads u) rfl
      · exact (Function.update_eq_self_iff.mpr (hreads t).symm).symm
      · by_cases hu : u = t
        · simp [hu, State.afterUnlock, Pc.duty]
        · simp [hu, State.afterUnlock, hmine, Ne.symm hu]

theorem Roles.schedCoreLock (h : Roles s) {job : Job C} {cpu : C} {phase : Phase C}
    (hpc : s.pc t = .core job cpu phase) (hs : s.schedCoreLock K t job cpu phase = some s') :
    Roles s' := by
  have hold : (s.pc t).duty = job.duty cpu := by rw [hpc]; rfl
  cases phase with
  | lock rest =>
      cases rest with
      | nil => exact Option.some.inj hs ▸ h.dutiful (dutiful_goto hold.symm)
      | cons c rest =>
          simp only [State.schedCoreLock] at hs
          split_ifs at hs
          exact Option.some.inj hs ▸ h.dutiful ((spinStep_own ..).dutiful hold.symm)
  | body =>
      obtain rfl := Option.some.inj hs
      exact h.dutiful (t := t) ⟨fun u hu ↦ by simp [State.goto, hu],
        by simp [State.goto, Pc.duty, hpc], rfl, rfl, rfl, rfl, rfl, rfl⟩
  | unlock rest =>
      cases rest with
      | nil => exact Option.some.inj hs ▸ h.afterUnlock hpc
      | cons c rest =>
          exact Option.some.inj hs ▸ h.dutiful ((spinStep_own ..).dutiful hold.symm)

omit [DecidableEq T] [DecidableEq C] in
theorem Roles.idle_of_reads (h : Roles s) (hreads : (s.pc t).duty.reads = true) :
    s.hotplug = .idle := by
  by_contra hne
  exact absurd (hreads.symm.trans ((h.reads t).symm.trans (h.apart hne t))) (by simp)

theorem Roles.flip (h : Roles s) {pc : Pc C} (hpc : s.pc t = pc)
    (hs : s.flip K t pc = some s') : Roles s' := by
  cases pc with
  | flipStart enabled =>
      simp only [State.flip] at hs
      split_ifs at hs with hidle
      obtain rfl := Option.some.inj hs
      refine h.move _ (.flipNext enabled (K.possible.filter s.cores.online)) hpc rfl (.keep _ _)
        rfl (fun u c ↦ ?_) (fun hne ↦ absurd hidle hne) rfl
      by_cases hu : u = t <;> simp [hu, State.goto, Pc.duty, hidle]
  | flipNext enabled mask =>
      cases mask <;> exact Option.some.inj hs ▸ h.dutiful (dutiful_goto (by rw [hpc]; rfl))
  | flipOffline enabled rest =>
      cases rest with
      | cons c rest =>
          obtain rfl := Option.some.inj hs
          exact h.dutiful (t := t) ⟨fun u hu ↦ by simp [State.goto, hu],
            by simp [State.goto, Pc.duty, hpc], rfl, rfl, rfl, rfl, rfl, rfl⟩
      | nil =>
          obtain rfl := Option.some.inj hs
          have hidle : s.hotplug = .idle := h.idle_of_reads (t := t) (by rw [hpc]; rfl)
          have hduty : (if enabled then Pc.getInc else Pc.disable : Pc C).duty =
              { mutex := true } := by cases enabled <;> rfl
          refine h.move _ (if enabled then .getInc else .disable) hpc rfl ?_ ?_ (fun u c ↦ ?_)
            (fun hne ↦ absurd hidle hne) ?_
          · rw [hduty]
            exact .keep _ _
          · rw [hduty]
          · rw [hduty]
            by_cases hu : u = t <;> simp [hu, State.goto, hidle]
          · rw [hduty]
            rfl
  | _ => simp [State.flip] at hs

omit [DecidableEq T] [DecidableEq C] in
theorem Roles.count_pos (h : Roles s) (hputs : (s.pc t).duty.puts = true) :
    0 < s.schedCoreCount := by
  have hle : (s.pc t).duty.puts.toNat ≤ ∑ u, (s.pc u).duty.puts.toNat :=
    Finset.single_le_sum_of_canonicallyOrdered (f := fun u ↦ (s.pc u).duty.puts.toNat)
      (Finset.mem_univ t)
  rw [hputs, Bool.toNat_true] at hle
  have := h.count
  omega

omit [DecidableEq T] [DecidableEq C] in
theorem Roles.mine (h : Roles s) {pc : Pc C} (hpc : s.pc t = pc)
    (hmutex : pc.duty.mutex = true) : s.schedCoreMutex = some t :=
  (h.mutex t).mpr (by rw [hpc, hmutex])

omit [DecidableEq T] [DecidableEq C] in
theorem Roles.mutex_ne_none (h : Roles s) {pc : Pc C} (hpc : s.pc t = pc)
    (hmutex : pc.duty.mutex = true) : s.schedCoreMutex ≠ none := by
  simp [h.mine hpc hmutex]

omit [DecidableEq C] in
theorem Roles.counts (h : Roles s) {pc : Pc C} (hpc : s.pc t = pc)
    (hs : s.count t pc = some s') : Roles s' := by
  cases pc with
  | getMutex | putMutex =>
      simp only [State.count] at hs
      split_ifs at hs with hfree
      obtain rfl := Option.some.inj hs
      exact h.counting _ _ hpc rfl (hfree ▸ .take) rfl rfl ⟨rfl, rfl⟩ rfl
  | getTest =>
      obtain rfl := Option.some.inj hs
      refine h.dutiful (dutiful_goto ?_)
      rw [hpc]
      split_ifs <;> rfl
  | enable =>
      obtain rfl := Option.some.inj hs
      exact h.dutiful (t := t) ⟨fun u hu ↦ by simp [State.goto, hu],
        by simp [State.goto, Pc.duty, hpc], rfl, rfl, rfl, rfl, rfl, rfl⟩
  | sync =>
      simp only [State.count] at hs
      split_ifs at hs
      exact Option.some.inj hs ▸ h.dutiful (dutiful_goto (by rw [hpc]; rfl))
  | getInc =>
      obtain rfl := Option.some.inj hs
      refine h.counting _ .out hpc rfl (h.mine hpc rfl ▸ .drop) rfl rfl ⟨rfl, rfl⟩ ?_
      simp only [State.goto, Pc.duty]
      omega
  | putDec =>
      have hpos := h.count_pos (t := t) (by rw [hpc]; rfl)
      simp only [State.count] at hs
      split_ifs at hs with hcount
      · exact Option.some.inj hs ▸ h.dutiful (dutiful_goto (by rw [hpc]; rfl))
      · obtain rfl := Option.some.inj hs
        refine h.counting _ .out hpc rfl (.keep _ _) rfl rfl ⟨rfl, rfl⟩ ?_
        simp only [State.goto, Pc.duty, Bool.toNat_true, Bool.toNat_false]
        omega
  | putTest =>
      have hpos := h.count_pos (t := t) (by rw [hpc]; rfl)
      simp only [State.count] at hs
      split_ifs at hs with hcount
      · obtain rfl := Option.some.inj hs
        refine h.counting _ (.flipStart false) hpc rfl (.keep _ _) rfl rfl ⟨rfl, rfl⟩ ?_
        simp only [State.goto, Pc.duty, Bool.toNat_true, Bool.toNat_false]
        omega
      · obtain rfl := Option.some.inj hs
        refine h.counting _ .out hpc rfl (h.mine hpc rfl ▸ .drop) rfl rfl ⟨rfl, rfl⟩ ?_
        simp only [State.goto, Pc.duty, Bool.toNat_true, Bool.toNat_false]
        omega
  | disable =>
      obtain rfl := Option.some.inj hs
      exact h.counting _ .out hpc rfl (h.mine hpc rfl ▸ .drop) rfl rfl ⟨rfl, rfl⟩ rfl
  | _ => simp [State.count] at hs

theorem Roles.cont (h : Roles s) (hs : s.cont K t = some s') : Roles s' := by
  simp only [State.cont] at hs
  split at hs
  · rename_i hpc
    obtain ⟨pc, hspin, hduty, -⟩ := spinStep_rawSpinRqLock hs
    exact h.dutiful (hspin.dutiful (by rw [hduty, hpc]; rfl))
  · rename_i rq1 rq2 hpc
    exact Option.some.inj hs ▸ h.dutiful (dutiful_goto (by rw [duty_compare, hpc]; rfl))
  · exact h.schedCoreLock ‹_› hs
  · exact h.flip ‹_› hs
  · exact h.flip ‹_› hs
  · exact h.flip ‹_› hs
  · exact h.counts rfl hs

omit [DecidableEq C] in
/-- A thread that was outside starts to work on a CPU that comes or goes. -/
theorem Roles.change (h : Roles s) {job : Job C} {cpu : C} {phase : Phase C}
    (hjob : job.duty cpu = { changes := some cpu }) (hpc : s.pc t = .out)
    (hidle : s.hotplug = .idle) (hreads : ∀ u, s.cpusRead u = false) (k : Cores C) :
    Roles { s.goto t (.core job cpu phase) with cores := k, hotplug := .changing t cpu } := by
  refine h.move .out (.core job cpu phase) hpc rfl ?_ ?_ (fun u c ↦ ?_) (fun _ ↦ hreads) ?_
  · rw [Pc.duty, hjob]
    exact .keep _ _
  · rw [Pc.duty, hjob]
    exact (Function.update_eq_self_iff.mpr (hreads t).symm).symm
  · rw [Pc.duty, hjob, hidle]
    by_cases hu : u = t
    · simp [hu]
    · simp [hu, Ne.symm hu]
  · rw [Pc.duty, hjob]
    rfl

theorem Roles.next (h : Roles s) {l : Label T C} (hs : next K s l = some s') : Roles s' := by
  cases l with
  | lock t rq | trylock t rq | doubleLock t rq1 rq2 =>
      simp only [RqLock.next] at hs
      split_ifs at hs with hpc
      exact Option.some.inj hs ▸ h.dutiful (dutiful_goto (by rw [hpc]; rfl))
  | unlock t =>
      obtain ⟨hold, pc, hspin, hduty, -⟩ := spinStep_rawSpinRqUnlock hs
      exact h.dutiful (hspin.dutiful (hduty.trans hold.symm))
  | cont t => exact h.cont hs
  | get t =>
      simp only [RqLock.next] at hs
      split_ifs at hs with hpc hzero
      · exact Option.some.inj hs ▸ h.dutiful (dutiful_goto (by rw [hpc]; rfl))
      · obtain rfl := Option.some.inj hs
        refine ⟨h.mutex, h.reads, h.changes, h.apart, ?_⟩
        have := h.count
        simp only
        omega
  | put t =>
      simp only [RqLock.next] at hs
      split_ifs at hs with hpc hone
      · obtain rfl := Option.some.inj hs
        refine ⟨h.mutex, h.reads, h.changes, h.apart, ?_⟩
        have := h.count
        cases hwork : s.workPending <;> simp [hwork] at this ⊢ <;> omega
      · obtain rfl := Option.some.inj hs
        refine ⟨h.mutex, h.reads, h.changes, h.apart, ?_⟩
        have := h.count
        simp only
        omega
  | work t =>
      simp only [RqLock.next] at hs
      split_ifs at hs with hpc
      obtain rfl := Option.some.inj hs
      refine h.counting .out .putDec hpc.1 rfl (.keep _ _) rfl rfl ⟨rfl, rfl⟩ ?_
      simp [State.goto, Pc.duty, hpc.2]
  | bringUp t cpu =>
      simp only [RqLock.next] at hs
      split_ifs at hs with hpc
      exact Option.some.inj hs ▸ h.change rfl hpc.1 hpc.2.1 hpc.2.2.1 _
  | takeDown t cpu =>
      simp only [RqLock.next] at hs
      split_ifs at hs with hpc
      exact Option.some.inj hs ▸ h.change rfl hpc.1 hpc.2.1 hpc.2.2.1 s.cores
  | dying | downFailed =>
      simp only [RqLock.next] at hs
      split at hs
      · rename_i cpu hleaving
        have hnone : ∀ t c, (s.pc t).duty.changes ≠ some c := fun t c hc ↦ by
          simpa [hleaving] using (h.changes t c).mpr hc
        try split_ifs at hs
        obtain rfl := Option.some.inj hs
        exact ⟨h.mutex, h.reads, fun t c ↦ by simp [hnone t c], fun hne ↦ absurd rfl hne, h.count⟩
      · simp at hs

omit [DecidableEq T] in
theorem roles_init (boot : C) : Roles (State.init boot : State T C) :=
  ⟨fun _ ↦ by simp [State.init, Pc.duty], fun _ ↦ rfl, fun _ _ ↦ by simp [State.init, Pc.duty],
    fun hne ↦ absurd rfl hne, by simp [State.init, Pc.duty]⟩

end NcuKernel.RqLock
