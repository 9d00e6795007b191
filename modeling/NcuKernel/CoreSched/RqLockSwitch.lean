import NcuKernel.CoreSched.RqLockRoles

/-!
# Core scheduling is on while somebody wants it

`sched_core_mutex` is held from the decision to switch until the last `core_enabled` is
set, and the count is zero all that time. What the holder has reached is an assertion
about `core_enabled` at each of its places; a thread that has read the static key as off
knows that no flag is set. Everybody else leaves the flags, the key and the question
whether the count is zero alone.
-/

namespace NcuKernel.RqLock

open Runs

/-- The section between `sched_core_lock` and `sched_core_unlock` is over. -/
def Phase.done {C : Type*} : Phase C → Bool
  | .unlock _ => true
  | _ => false

def Cores.All {C : Type*} (k : Cores C) (enabled : Bool) : Prop := ∀ c, k.coreEnabled c = enabled

variable {T C : Type*}

/-- What has to be so before the first flag is set: the key is on, and nobody is left who
has seen it off. -/
def State.Ready (s : State T C) (enabled : Bool) : Prop :=
  enabled = true → s.cores.schedCoreEnabled = true ∧ ∀ u, (s.pc u).plain = false

/-- What a thread knows about the flags at each of its places. -/
def State.Knows (K : Topology C) (s : State T C) : Pc C → Prop
  | .acquire _ _ .plain => s.cores.All false
  | .getTest => s.schedCoreCount = 0 → s.cores.All false
  | .enable => s.schedCoreCount = 0 ∧ s.cores.All false
  | .sync => s.schedCoreCount = 0 ∧ s.cores.All false ∧ s.cores.schedCoreEnabled = true
  | .flipStart enabled => s.schedCoreCount = 0 ∧ s.Ready enabled ∧ s.cores.All (!enabled)
  | .flipNext enabled mask => s.schedCoreCount = 0 ∧ s.Ready enabled ∧
      ∀ c, s.cores.online c = true → c ∉ mask → s.cores.coreEnabled c = enabled
  | .core (.flip enabled mask) cpu phase => s.schedCoreCount = 0 ∧ s.Ready enabled ∧
      ∀ c, s.cores.online c = true →
        (c ∈ mask → phase.done = true ∧ c ∈ s.cores.cpuSmtMask K cpu) →
        s.cores.coreEnabled c = enabled
  | .flipOffline enabled rest => s.schedCoreCount = 0 ∧ s.Ready enabled ∧
      (∀ c ∈ rest, s.cores.online c = false) ∧ ∀ c, c ∉ rest → s.cores.coreEnabled c = enabled
  | .getInc => s.cores.All true
  | .disable => s.schedCoreCount = 0 ∧ s.cores.All false
  | _ => True

structure Switch (K : Topology C) (s : State T C) : Prop where
  key : ∀ c, s.cores.coreEnabled c = true → s.cores.schedCoreEnabled = true
  on : 0 < s.schedCoreCount → s.cores.All true
  off : s.schedCoreMutex = none → s.schedCoreCount = 0 →
    s.cores.schedCoreEnabled = false ∧ s.cores.All false
  knows : ∀ t, s.Knows K (s.pc t)

variable {K : Topology C} {s s' : State T C} {t : T} {pc : Pc C}

theorem knows_of_plain (hduty : pc.duty.mutex = false)
    (h : pc.plain = true → s.cores.All false) : s.Knows K pc := by
  cases pc with
  | acquire goal rq stage =>
      cases stage with
      | plain => exact h rfl
      | _ => trivial
  | core job cpu phase =>
      cases job with
      | flip => simp [Pc.duty, Job.duty] at hduty
      | _ => trivial
  | _ => trivial

theorem State.Knows.all_of_plain (h : s.Knows K pc) (hplain : pc.plain = true) :
    s.cores.All false := by
  cases pc with
  | acquire goal rq stage =>
      cases stage with
      | plain => exact h
      | _ => simp [Pc.plain] at hplain
  | _ => simp [Pc.plain] at hplain

/-- With the key off no flag is set. -/
theorem Switch.all_false (h : Switch K s) (hkey : s.cores.schedCoreEnabled = false) :
    s.cores.All false := fun c ↦ by
  by_contra hc
  simp [h.key c (by simpa using hc)] at hkey

/-! ## Steps that leave the flags alone -/

/-- The flags and the key are as they were, and so is whether the count is zero; the masks
change only if nobody holds `cpus_read_lock`. -/
structure Unswitched (s s' : State T C) : Prop where
  enabled : s'.cores.coreEnabled = s.cores.coreEnabled
  key : s'.cores.schedCoreEnabled = s.cores.schedCoreEnabled
  zero : s'.schedCoreCount = 0 ↔ s.schedCoreCount = 0
  mutex : s'.schedCoreMutex = none → s.schedCoreMutex = none
  masks : (∀ u, s.cpusRead u = false) ∨
    s'.cores.smt = s.cores.smt ∧ s'.cores.online = s.cores.online
  plain : ∀ u, s'.pc u = s.pc u ∨
    ((s'.pc u).plain = true → s.cores.schedCoreEnabled = false)

theorem Unswitched.all (h : Unswitched s s') (enabled : Bool) :
    s'.cores.All enabled ↔ s.cores.All enabled := by
  rw [Cores.All, Cores.All, h.enabled]

theorem Unswitched.ready (h : Unswitched s s') {enabled : Bool} (hready : s.Ready enabled) :
    s'.Ready enabled := by
  intro he
  obtain ⟨hkey, hplain⟩ := hready he
  refine ⟨h.key.trans hkey, fun u ↦ ?_⟩
  rcases h.plain u with hsame | hnew
  · rw [hsame, hplain]
  · by_contra hu
    simp [hnew (by simpa using hu)] at hkey

theorem Unswitched.knows (h : Unswitched s s')
    (hmasks : pc.duty.reads = true →
      s'.cores.smt = s.cores.smt ∧ s'.cores.online = s.cores.online)
    (hpc : s.Knows K pc) : s'.Knows K pc := by
  cases pc with
  | acquire goal rq stage =>
      cases stage with
      | plain => exact (h.all false).mpr hpc
      | _ => trivial
  | getTest => exact fun hzero ↦ (h.all false).mpr (hpc (h.zero.mp hzero))
  | enable | disable => exact ⟨h.zero.mpr hpc.1, (h.all false).mpr hpc.2⟩
  | sync => exact ⟨h.zero.mpr hpc.1, (h.all false).mpr hpc.2.1, h.key.trans hpc.2.2⟩
  | flipStart enabled => exact ⟨h.zero.mpr hpc.1, h.ready hpc.2.1, (h.all _).mpr hpc.2.2⟩
  | flipNext enabled mask =>
      refine ⟨h.zero.mpr hpc.1, h.ready hpc.2.1, ?_⟩
      rw [h.enabled, (hmasks rfl).2]
      exact hpc.2.2
  | core job cpu phase =>
      cases job with
      | flip enabled mask =>
          refine ⟨h.zero.mpr hpc.1, h.ready hpc.2.1, ?_⟩
          rw [h.enabled, (hmasks rfl).2, Cores.cpuSmtMask, (hmasks rfl).1]
          exact hpc.2.2
      | _ => trivial
  | flipOffline enabled rest =>
      refine ⟨h.zero.mpr hpc.1, h.ready hpc.2.1, ?_⟩
      rw [h.enabled, (hmasks rfl).2]
      exact hpc.2.2
  | getInc => exact (h.all true).mpr hpc
  | _ => trivial

variable [Fintype T]

/-- A thread that gets to a place of the holder of the mutex finds what it has to know there. -/
theorem Switch.unswitched (h : Switch K s) (hroles : Roles s) (hs : Unswitched s s')
    (hmoved : ∀ u, s'.pc u = s.pc u ∨ ((s'.pc u).duty.mutex = true →
      (s'.cores.smt = s.cores.smt ∧ s'.cores.online = s.cores.online) ∧ s.Knows K (s'.pc u))) :
    Switch K s' where
  key c hc := by
    rw [hs.enabled] at hc
    exact hs.key.trans (h.key c hc)
  on hpos := (hs.all true).mpr (h.on (Nat.pos_of_ne_zero fun hzero ↦ by
    simp [hs.zero.mpr hzero] at hpos))
  off hmutex hzero := by
    obtain ⟨hkey, hall⟩ := h.off (hs.mutex hmutex) (hs.zero.mp hzero)
    exact ⟨hs.key.trans hkey, (hs.all false).mpr hall⟩
  knows u := by
    rcases hmoved u with hsame | hmine
    · rw [hsame]
      refine hs.knows (fun hreads ↦ hs.masks.resolve_left fun hno ↦ ?_) (h.knows u)
      simp [← hroles.reads u, hno u] at hreads
    · by_cases hduty : (s'.pc u).duty.mutex = true
      · obtain ⟨hmasks, hknows⟩ := hmine hduty
        exact hs.knows (fun _ ↦ hmasks) hknows
      · refine knows_of_plain (by simpa using hduty) fun hp ↦ (hs.all false).mpr ?_
        rcases hs.plain u with hsame | hplain
        · exact (h.knows u).all_of_plain (hsame ▸ hp)
        · exact h.all_false (hplain hp)

variable [DecidableEq T]

/-- One thread goes to another place, and perhaps takes the mutex. -/
theorem Switch.goto (h : Switch K s) (hroles : Roles s) (pc : Pc C) (hcores : s'.cores = s.cores)
    (hcount : s'.schedCoreCount = s.schedCoreCount)
    (hmutex : s'.schedCoreMutex = none → s.schedCoreMutex = none)
    (hpc : s'.pc = Function.update s.pc t pc)
    (hplain : pc.plain = true → s.cores.schedCoreEnabled = false)
    (hmine : pc.duty.mutex = true → s.Knows K pc) : Switch K s' := by
  have hmasks : s'.cores.smt = s.cores.smt ∧ s'.cores.online = s.cores.online := by
    rw [hcores]
    exact ⟨rfl, rfl⟩
  have hmoved : ∀ u, s'.pc u = s.pc u ∨ s'.pc u = pc := fun u ↦ by
    by_cases hu : u = t
    · exact .inr (by simp [hpc, hu])
    · exact .inl (by simp [hpc, hu])
  refine h.unswitched hroles ⟨by rw [hcores], by rw [hcores], by rw [hcount], hmutex, .inr hmasks,
    fun u ↦ ?_⟩ fun u ↦ ?_
  · refine (hmoved u).imp_right fun hu ↦ ?_
    rw [hu]
    exact hplain
  · refine (hmoved u).imp_right fun hu ↦ ?_
    rw [hu]
    exact fun hduty ↦ ⟨hmasks, hmine hduty⟩

omit [DecidableEq T] in
/-- A step of the holder of the mutex. The others know only what a reader of the key
knows. -/
theorem switch_of_holder (hroles : Roles s) (h : Switch K s) (hmutex : (s.pc t).duty.mutex = true)
    (hpc : ∀ u, u ≠ t → s'.pc u = s.pc u)
    (hkey : ∀ c, s'.cores.coreEnabled c = true → s'.cores.schedCoreEnabled = true)
    (hon : 0 < s'.schedCoreCount → s'.cores.All true)
    (hoff : s'.schedCoreMutex = none → s'.schedCoreCount = 0 →
      s'.cores.schedCoreEnabled = false ∧ s'.cores.All false)
    (hplain : (∃ u, (s.pc u).plain = true) → s.cores.All false → s'.cores.All false)
    (hself : s'.Knows K (s'.pc t)) : Switch K s' := by
  refine ⟨hkey, hon, hoff, fun u ↦ ?_⟩
  by_cases hu : u = t
  · exact hu ▸ hself
  · rw [hpc u hu]
    refine knows_of_plain ?_ fun hp ↦ hplain ⟨u, hp⟩ ((h.knows u).all_of_plain hp)
    by_contra hduty
    have hmine := (hroles.mutex t).mpr hmutex
    rw [(hroles.mutex u).mpr (by simpa using hduty)] at hmine
    exact hu (Option.some.inj hmine)

/-! ## Every step -/

variable [DecidableEq C]

omit [DecidableEq C] in
theorem Switch.spins (h : Switch K s) (hroles : Roles s) (hs : SpinStep t s s' pc)
    (hplain : pc.plain = true → s.cores.schedCoreEnabled = false)
    (hmine : pc.duty.mutex = true → s.Knows K pc) : Switch K s' := by
  have hrest := hs.rest
  exact h.goto hroles pc (by rw [hrest]) (by rw [hrest]) (fun hm ↦ by rw [hrest] at hm; exact hm)
    hs.pc hplain hmine

theorem Switch.afterUnlock (h : Switch K s) (hroles : Roles s) {job : Job C} {cpu : C}
    (hpc : s.pc t = .core job cpu (.unlock [])) : Switch K (s.afterUnlock K t job cpu) := by
  have hknows := hpc ▸ h.knows t
  cases job with
  | flip enabled mask =>
      refine h.spins hroles (spinStep_goto ..) (by simp [Pc.plain]) fun _ ↦
        ⟨hknows.1, hknows.2.1, fun c hc hmask ↦ hknows.2.2 c hc fun hin ↦ ⟨rfl, ?_⟩⟩
      simpa [hin] using hmask
  | starting =>
      have hreads : ∀ u, s.cpusRead u = false := hroles.apart (by
        rw [(hroles.changes t cpu).mpr (by rw [hpc]; rfl)]
        simp)
      have hmoved : ∀ u, (s.afterUnlock K t .starting cpu).pc u = s.pc u ∨
          (s.afterUnlock K t .starting cpu).pc u = .out := fun u ↦ by
        by_cases hu : u = t
        · exact .inr (by simp [State.afterUnlock, State.goto, hu])
        · exact .inl (by simp [State.afterUnlock, State.goto, hu])
      refine h.unswitched hroles
        ⟨rfl, rfl, Iff.rfl, fun hm ↦ hm, .inl hreads, fun u ↦ ?_⟩ fun u ↦ ?_
      · exact (hmoved u).imp_right fun hu ↦ by simp [hu, Pc.plain]
      · exact (hmoved u).imp_right fun hu ↦ by simp [hu, Pc.duty]
  | deactivate =>
      exact h.goto hroles .out rfl rfl (fun hm ↦ hm) rfl (by simp [Pc.plain]) (by simp [Pc.duty])

omit [Fintype T] [DecidableEq C] in
theorem State.Ready.moved {enabled : Bool} (h : s.Ready enabled)
    (hkey : s'.cores.schedCoreEnabled = s.cores.schedCoreEnabled)
    (hpc : s'.pc = Function.update s.pc t pc) (hplain : pc.plain = false) :
    s'.Ready enabled := by
  intro he
  refine ⟨hkey.trans (h he).1, fun u ↦ ?_⟩
  by_cases hu : u = t
  · simp [hpc, hu, hplain]
  · simpa [hpc, hu] using (h he).2 u

omit [Fintype T] [DecidableEq T] in
/-- The two hotplug callbacks write `core` only. -/
theorem Cores.body_eq (k : Cores C) (job : Job C) (cpu : C)
    (hjob : job = .starting ∨ job = .deactivate) :
    ∃ core, (k.body K job cpu).1 = { k with core := core } := by
  rcases hjob with rfl | rfl
  · simp only [Cores.body, Cores.schedCoreCpuStarting]
    split_ifs
    · exact ⟨k.core, rfl⟩
    · split
      · exact ⟨k.core, rfl⟩
      · exact ⟨_, rfl⟩
  · simp only [Cores.body, Cores.schedCoreCpuDeactivate]
    split_ifs
    · exact ⟨k.core, rfl⟩
    · exact ⟨k.core, rfl⟩
    · split
      · exact ⟨k.core, rfl⟩
      · exact ⟨_, rfl⟩

theorem Switch.body (h : Switch K s) (hroles : Roles s) {job : Job C} {cpu : C}
    (hpc : s.pc t = .core job cpu .body)
    (hs : s.schedCoreLock K t job cpu .body = some s') : Switch K s' := by
  have hmoved : s'.pc = Function.update s.pc t
      (.core job cpu (.unlock (s.cores.cpuSmtMask K cpu))) := Option.some.inj hs ▸ rfl
  have hrest : s'.cores = (s.cores.body K job cpu).1 ∧ s'.schedCoreCount = s.schedCoreCount ∧
      s'.schedCoreMutex = s.schedCoreMutex := Option.some.inj hs ▸ ⟨rfl, rfl, rfl⟩
  obtain ⟨hcores, hcount, hmutex⟩ := hrest
  by_cases hjob : job = .starting ∨ job = .deactivate
  · obtain ⟨core, heq⟩ := s.cores.body_eq (K := K) job cpu hjob
    rw [heq] at hcores
    have hfree : job.duty cpu = { changes := some cpu } := by rcases hjob with rfl | rfl <;> rfl
    refine h.unswitched hroles ⟨by rw [hcores], by rw [hcores], by rw [hcount], by simp [hmutex],
      .inr (by simp [hcores]), fun u ↦ ?_⟩ fun u ↦ ?_ <;> by_cases hu : u = t
    · exact .inr (by simp [hmoved, hu, Pc.plain])
    · exact .inl (by simp [hmoved, hu])
    · exact .inr (by simp [hmoved, hu, Pc.duty, hfree])
    · exact .inl (by simp [hmoved, hu])
  · obtain ⟨enabled, mask, rfl⟩ : ∃ enabled mask, job = .flip enabled mask := by
      cases job with
      | flip enabled mask => exact ⟨enabled, mask, rfl⟩
      | _ => simp at hjob
    obtain ⟨hzero, hready, hflags⟩ := hpc ▸ h.knows t
    have hkey : s'.cores.schedCoreEnabled = s.cores.schedCoreEnabled := by rw [hcores]; rfl
    have henabled : ∀ c, s'.cores.coreEnabled c =
        if c ∈ s.cores.cpuSmtMask K cpu then enabled else s.cores.coreEnabled c := by
      rw [hcores]
      exact fun c ↦ rfl
    refine switch_of_holder (t := t) hroles h (by rw [hpc]; rfl)
      (fun u hu ↦ by simp [hmoved, hu]) (fun c hc ↦ ?_) (fun hpos ↦ ?_) (fun hnone ↦ ?_)
      (fun hplain hall c ↦ ?_) ?_
    · rw [henabled] at hc
      split_ifs at hc
      · exact hkey.trans (hready hc).1
      · exact hkey.trans (h.key c hc)
    · simp [hcount, hzero] at hpos
    · exact absurd (hmutex.symm.trans hnone) (hroles.mutex_ne_none hpc rfl)
    · rw [henabled]
      split_ifs
      · obtain ⟨u, hu⟩ := hplain
        by_contra he
        simp [(hready (by simpa using he)).2 u] at hu
      · exact hall c
    · rw [hmoved, Function.update_self]
      refine ⟨hcount.trans hzero, hready.moved hkey hmoved rfl, fun c hc hmask ↦ ?_⟩
      rw [henabled]
      split_ifs with hin
      · rfl
      · have hmask' : c ∉ mask := fun hm ↦ hin (by
          have := (hmask hm).2
          rwa [hcores] at this)
        rw [hcores] at hc
        exact hflags c hc fun hm ↦ absurd hm hmask'

omit [Fintype T] [DecidableEq T] [DecidableEq C] in
/-- Before and after the section the place in the list of locks does not matter. -/
theorem State.Knows.core {job : Job C} {cpu : C} {phase phase' : Phase C}
    (h : s.Knows K (.core job cpu phase)) (hdone : phase'.done = phase.done) :
    s.Knows K (.core job cpu phase') := by
  cases job with
  | flip enabled mask =>
      refine ⟨h.1, h.2.1, ?_⟩
      rw [hdone]
      exact h.2.2
  | _ => trivial

theorem Switch.schedCoreLock (h : Switch K s) (hroles : Roles s) {job : Job C} {cpu : C}
    {phase : Phase C} (hpc : s.pc t = .core job cpu phase)
    (hs : s.schedCoreLock K t job cpu phase = some s') : Switch K s' := by
  have hknows := hpc ▸ h.knows t
  cases phase with
  | lock rest =>
      cases rest with
      | nil =>
          exact Option.some.inj hs ▸ h.spins hroles (spinStep_goto ..) (by simp [Pc.plain])
            fun _ ↦ hknows.core rfl
      | cons c rest =>
          simp only [State.schedCoreLock] at hs
          split_ifs at hs
          exact Option.some.inj hs ▸ h.spins hroles (spinStep_own ..) (by simp [Pc.plain])
            fun _ ↦ hknows.core rfl
  | body => exact h.body hroles hpc hs
  | unlock rest =>
      cases rest with
      | nil => exact Option.some.inj hs ▸ h.afterUnlock hroles hpc
      | cons c rest =>
          exact Option.some.inj hs ▸ h.spins hroles (spinStep_own ..) (by simp [Pc.plain])
            fun _ ↦ hknows.core rfl

theorem Switch.flip (h : Switch K s) (hroles : Roles s) (hpc : s.pc t = pc)
    (hs : s.flip K t pc = some s') : Switch K s' := by
  have hknows := hpc ▸ h.knows t
  cases pc with
  | flipStart enabled =>
      simp only [State.flip] at hs
      split_ifs at hs
      obtain rfl := Option.some.inj hs
      refine h.goto hroles (.flipNext enabled (K.possible.filter s.cores.online)) rfl rfl
        (fun hm ↦ hm) rfl (by simp [Pc.plain]) fun _ ↦ ⟨hknows.1, hknows.2.1, fun c hc hmask ↦ ?_⟩
      simp [K.mem_possible, hc] at hmask
  | flipNext enabled mask =>
      cases mask with
      | cons cpu mask =>
          refine Option.some.inj hs ▸ h.spins hroles (spinStep_goto ..) (by simp [Pc.plain])
            fun _ ↦ ⟨hknows.1, hknows.2.1, fun c hc hmask ↦ hknows.2.2 c hc fun hin ↦ ?_⟩
          simpa [Phase.done] using hmask hin
      | nil =>
          refine Option.some.inj hs ▸ h.spins hroles (spinStep_goto ..) (by simp [Pc.plain])
            fun _ ↦ ⟨hknows.1, hknows.2.1, fun c hc ↦ ?_, fun c hc ↦ ?_⟩
          · simpa using (List.mem_filter.mp hc).2
          · exact hknows.2.2 c (by simpa [K.mem_possible] using hc) (by simp)
  | flipOffline enabled rest =>
      obtain ⟨hzero, hready, hoffline, hflags⟩ := hknows
      cases rest with
      | cons c rest =>
          obtain rfl := Option.some.inj hs
          refine switch_of_holder (t := t) hroles h (by rw [hpc]; rfl)
            (fun u hu ↦ by simp [State.goto, hu]) (fun d hd ↦ ?_) (fun hpos ↦ ?_) (fun hnone ↦ ?_)
            (fun hplain hall d ↦ ?_) ?_
          · by_cases hdc : d = c
            · exact (hready (by simpa [hdc] using hd)).1
            · exact h.key d (by simpa [hdc] using hd)
          · exact absurd hzero hpos.ne'
          · exact absurd hnone (hroles.mutex_ne_none hpc rfl)
          · by_cases hdc : d = c
            · obtain ⟨u, hu⟩ := hplain
              by_contra he
              have he' : enabled = true := by simpa [hdc] using he
              simp [(hready he').2 u] at hu
            · simpa [hdc] using hall d
          · have hself : (s.goto t (.flipOffline enabled rest)).pc t =
                .flipOffline enabled rest := by simp [State.goto]
            simp only [hself]
            refine ⟨hzero, hready.moved rfl rfl rfl, fun d hd ↦ hoffline d (by simp [hd]),
              fun d hd ↦ ?_⟩
            by_cases hdc : d = c
            · simp [hdc]
            · simpa [hdc] using hflags d (by simp [hdc, hd])
      | nil =>
          obtain rfl := Option.some.inj hs
          refine h.goto hroles (if enabled then .getInc else .disable) rfl rfl (fun hm ↦ hm) rfl
            ?_ fun _ ↦ ?_
          · cases enabled <;> simp [Pc.plain]
          · cases enabled with
            | true => exact fun c ↦ hflags c (by simp)
            | false => exact ⟨hzero, fun c ↦ hflags c (by simp)⟩
  | _ => simp [State.flip] at hs

omit [DecidableEq C] in
theorem Switch.count (h : Switch K s) (hroles : Roles s) (hpc : s.pc t = pc)
    (hs : s.count t pc = some s') : Switch K s' := by
  have hknows := hpc ▸ h.knows t
  cases pc with
  | getMutex =>
      simp only [State.count] at hs
      split_ifs at hs with hfree
      obtain rfl := Option.some.inj hs
      exact h.goto hroles .getTest rfl rfl (fun _ ↦ hfree) rfl (by simp [Pc.plain])
        fun _ hzero ↦ (h.off hfree hzero).2
  | putMutex =>
      simp only [State.count] at hs
      split_ifs at hs with hfree
      obtain rfl := Option.some.inj hs
      exact h.goto hroles .putTest rfl rfl (fun _ ↦ hfree) rfl (by simp [Pc.plain])
        fun _ ↦ trivial
  | getTest =>
      refine Option.some.inj hs ▸ h.spins hroles (spinStep_goto ..) ?_ fun _ ↦ ?_ <;>
        split_ifs with hzero
      · simp [Pc.plain]
      · simp [Pc.plain]
      · exact ⟨hzero, hknows hzero⟩
      · exact h.on (Nat.pos_of_ne_zero hzero)
  | enable =>
      obtain rfl := Option.some.inj hs
      refine switch_of_holder (t := t) hroles h (by rw [hpc]; rfl)
        (fun u hu ↦ by simp [State.goto, hu]) (fun _ _ ↦ rfl) (fun hpos ↦ absurd hknows.1 hpos.ne')
        (fun hnone ↦ ?_) (fun _ hall ↦ hall) ?_
      · exact absurd hnone (hroles.mutex_ne_none hpc rfl)
      · simp only [State.goto, Function.update_self]
        exact ⟨hknows.1, hknows.2, rfl⟩
  | sync =>
      simp only [State.count] at hs
      split_ifs at hs with hplain
      exact Option.some.inj hs ▸ h.spins hroles (spinStep_goto ..) (by simp [Pc.plain])
        fun _ ↦ ⟨hknows.1, fun _ ↦ ⟨hknows.2.2, hplain⟩, hknows.2.1⟩
  | getInc =>
      obtain rfl := Option.some.inj hs
      refine switch_of_holder (t := t) hroles h (by rw [hpc]; rfl)
        (fun u hu ↦ by simp [State.goto, hu]) h.key (fun _ ↦ hknows) (fun _ hzero ↦ ?_)
        (fun _ hall ↦ hall) ?_
      · simp at hzero
      · simp [State.goto, State.Knows]
  | putDec =>
      have hpos := hroles.count_pos (t := t) (by rw [hpc]; rfl)
      simp only [State.count] at hs
      split_ifs at hs with hone
      · exact Option.some.inj hs ▸ h.spins hroles (spinStep_goto ..) (by simp [Pc.plain])
          (by simp [Pc.duty])
      · obtain rfl := Option.some.inj hs
        refine h.unswitched hroles
          ⟨rfl, rfl, ?_, fun hm ↦ hm, .inr ⟨rfl, rfl⟩, fun u ↦ ?_⟩ fun u ↦ ?_
        · simp only
          omega
        · by_cases hu : u = t <;> simp [State.goto, hu, Pc.plain]
        · by_cases hu : u = t <;> simp [State.goto, hu, Pc.duty]
  | putTest =>
      have hpos := hroles.count_pos (t := t) (by rw [hpc]; rfl)
      have hon := h.on hpos
      simp only [State.count] at hs
      split_ifs at hs with hone <;> obtain rfl := Option.some.inj hs
      · refine switch_of_holder (t := t) hroles h (by rw [hpc]; rfl)
          (fun u hu ↦ by simp [State.goto, hu]) h.key (fun _ ↦ hon) (fun hnone ↦ ?_)
          (fun _ hall ↦ hall) ?_
        · exact absurd hnone (hroles.mutex_ne_none hpc rfl)
        · simp only [State.goto, Function.update_self]
          exact ⟨hone, by simp [State.Ready], hon⟩
      · refine switch_of_holder (t := t) hroles h (by rw [hpc]; rfl)
          (fun u hu ↦ by simp [State.goto, hu]) h.key (fun _ ↦ hon)
          (fun _ hzero ↦ absurd hzero hone) (fun _ hall ↦ hall) ?_
        simp [State.goto, State.Knows]
  | disable =>
      obtain rfl := Option.some.inj hs
      refine switch_of_holder (t := t) hroles h (by rw [hpc]; rfl)
        (fun u hu ↦ by simp [State.goto, hu]) (fun c hc ↦ ?_) (fun hpos ↦ absurd hknows.1 hpos.ne')
        (fun _ _ ↦ ⟨rfl, hknows.2⟩) (fun _ hall ↦ hall) ?_
      · exact absurd (hknows.2 c) (by simp [show s.cores.coreEnabled c = true from hc])
      · simp [State.goto, State.Knows]
  | _ => simp [State.count] at hs

theorem Switch.cont (h : Switch K s) (hroles : Roles s) (hs : s.cont K t = some s') :
    Switch K s' := by
  simp only [State.cont] at hs
  split at hs
  · obtain ⟨pc, hspin, hduty, hplain⟩ := spinStep_rawSpinRqLock hs
    exact h.spins hroles hspin hplain (by simp [hduty])
  · refine Option.some.inj hs ▸ h.spins hroles (spinStep_goto ..) ?_ (by simp [duty_compare])
    split_ifs <;> simp [Pc.plain]
  · exact h.schedCoreLock hroles ‹_› hs
  · exact h.flip hroles ‹_› hs
  · exact h.flip hroles ‹_› hs
  · exact h.flip hroles ‹_› hs
  · exact h.count hroles rfl hs

theorem Switch.next (h : Switch K s) (hroles : Roles s) {l : Label T C}
    (hs : next K s l = some s') : Switch K s' := by
  cases l with
  | lock t rq | trylock t rq | doubleLock t rq1 rq2 =>
      simp only [RqLock.next] at hs
      split_ifs at hs
      exact Option.some.inj hs ▸ h.spins hroles (spinStep_goto ..) (by simp [Pc.plain])
        (by simp [Pc.duty])
  | unlock t =>
      obtain ⟨-, pc, hspin, hduty, hplain⟩ := spinStep_rawSpinRqUnlock hs
      exact h.spins hroles hspin (by simp [hplain]) (by simp [hduty])
  | cont t => exact h.cont hroles hs
  | get t =>
      simp only [RqLock.next] at hs
      split_ifs at hs with hpc hzero
      · exact Option.some.inj hs ▸ h.spins hroles (spinStep_goto ..) (by simp [Pc.plain])
          (by simp [Pc.duty])
      · obtain rfl := Option.some.inj hs
        exact h.unswitched hroles ⟨rfl, rfl, by simp [hzero], fun hm ↦ hm, .inr ⟨rfl, rfl⟩,
          fun _ ↦ .inl rfl⟩ fun _ ↦ .inl rfl
  | put t =>
      have hcount := hroles.count
      simp only [RqLock.next] at hs
      split_ifs at hs with hpc hone <;> obtain rfl := Option.some.inj hs
      · exact h.unswitched hroles ⟨rfl, rfl, Iff.rfl, fun hm ↦ hm, .inr ⟨rfl, rfl⟩,
          fun _ ↦ .inl rfl⟩ fun _ ↦ .inl rfl
      · refine h.unswitched hroles ⟨rfl, rfl, ?_, fun hm ↦ hm, .inr ⟨rfl, rfl⟩,
          fun _ ↦ .inl rfl⟩ fun _ ↦ .inl rfl
        simp only
        omega
  | work t =>
      simp only [RqLock.next] at hs
      split_ifs at hs
      obtain rfl := Option.some.inj hs
      exact h.goto hroles .putDec rfl rfl (fun hm ↦ hm) rfl (by simp [Pc.plain]) (by simp [Pc.duty])
  | bringUp t cpu =>
      simp only [RqLock.next] at hs
      split_ifs at hs with hpc
      obtain rfl := Option.some.inj hs
      refine h.unswitched hroles ⟨rfl, rfl, Iff.rfl, fun hm ↦ hm, .inl hpc.2.2.1, fun u ↦ ?_⟩
        fun u ↦ ?_ <;> by_cases hu : u = t <;> simp [State.goto, hu, Pc.plain, Pc.duty, Job.duty]
  | takeDown t cpu =>
      simp only [RqLock.next] at hs
      split_ifs at hs
      obtain rfl := Option.some.inj hs
      exact h.goto hroles (.core .deactivate cpu (.lock (s.cores.cpuSmtMask K cpu))) rfl rfl
        (fun hm ↦ hm) rfl (by simp [Pc.plain]) (by simp [Pc.duty, Job.duty])
  | dying =>
      simp only [RqLock.next] at hs
      split at hs
      · rename_i cpu hleaving
        split_ifs at hs
        obtain rfl := Option.some.inj hs
        exact h.unswitched hroles ⟨rfl, rfl, Iff.rfl, fun hm ↦ hm,
          .inl (hroles.apart (by simp [hleaving])), fun _ ↦ .inl rfl⟩ fun _ ↦ .inl rfl
      · simp at hs
  | downFailed =>
      simp only [RqLock.next] at hs
      split at hs
      · obtain rfl := Option.some.inj hs
        exact h.unswitched hroles ⟨rfl, rfl, Iff.rfl, fun hm ↦ hm, .inr ⟨rfl, rfl⟩,
          fun _ ↦ .inl rfl⟩ fun _ ↦ .inl rfl
      · simp at hs

omit [Fintype T] [DecidableEq T] in
theorem switch_init (boot : C) : Switch K (State.init boot : State T C) where
  key _ hc := by simp [State.init] at hc
  on hpos := by simp [State.init] at hpos
  off _ _ := ⟨rfl, fun _ ↦ rfl⟩
  knows _ := trivial

omit [DecidableEq T] [DecidableEq C] in
/-- While nobody holds `cpus_read_lock`, all flags are the same. -/
theorem Switch.exists_all (h : Switch K s) (hroles : Roles s)
    (hreads : ∀ u, s.cpusRead u = false) : ∃ enabled, s.cores.All enabled := by
  rcases Nat.eq_zero_or_pos s.schedCoreCount with hzero | hpos
  · cases hm : s.schedCoreMutex with
    | none => exact ⟨false, (h.off hm hzero).2⟩
    | some t =>
        have hknows := h.knows t
        have hduty := (hroles.mutex t).mp hm
        have hfree := (hroles.reads t).symm.trans (hreads t)
        generalize hpc : s.pc t = pc at hknows hduty hfree
        cases pc with
        | getTest => exact ⟨false, hknows hzero⟩
        | enable | disable => exact ⟨false, hknows.2⟩
        | sync => exact ⟨false, hknows.2.1⟩
        | flipStart enabled => exact ⟨!enabled, hknows.2.2⟩
        | getInc => exact ⟨true, hknows⟩
        | putTest => exact absurd hzero (hroles.count_pos (t := t) (by rw [hpc]; rfl)).ne'
        | flipNext | flipOffline => simp [Pc.duty] at hfree
        | core job cpu phase =>
            cases job with
            | flip => simp [Pc.duty, Job.duty] at hfree
            | _ => simp [Pc.duty, Job.duty] at hduty
        | _ => simp [Pc.duty] at hduty
  · exact ⟨true, h.on hpos⟩

/-! ## The reference count -/

theorem Switch.step (h : Switch K s ∧ Roles s) (l : Label T C) :
    Switch K (step K s l) ∧ Roles (step K s l) := by
  rw [RqLock.step]
  cases hs : RqLock.next K s l with
  | none => exact h
  | some s' => exact ⟨h.1.next h.2 hs, h.2.next hs⟩

omit [DecidableEq T] [DecidableEq C] in
theorem Roles.mutex_eq_none (h : Roles s) (hfree : ∀ t, (s.pc t).duty.mutex = false) :
    s.schedCoreMutex = none := by
  cases hm : s.schedCoreMutex with
  | none => rfl
  | some t => exact absurd ((h.mutex t).mp hm) (by simp [hfree t])

/-- The count is the number of calls of `sched_core_get` that have not been put back, together
with the puts whose work is queued or has begun. While there is one of either, core
scheduling is on, for every CPU; when there is none and no switch is under way, it is off,
for every CPU. -/
theorem schedCore_counted (K : Topology C) (boot : C) (ls : List (Label T C)) :
    AllStates (step K) (fun s ↦
      s.schedCoreCount = s.refs + s.workPending.toNat +
        (Finset.univ.filter fun t ↦ (s.pc t).duty.puts = true).card ∧
      (0 < s.schedCoreCount → s.cores.schedCoreEnabled = true ∧ s.cores.All true) ∧
      (s.schedCoreCount = 0 → (∀ t, (s.pc t).duty.mutex = false) →
        s.cores.schedCoreEnabled = false ∧ s.cores.All false)) (State.init boot) ls := by
  have hinv : AllStates (RqLock.step K) (fun s ↦ Switch K s ∧ Roles s)
      (State.init boot : State T C) ls := by
    refine allStates_of_step (fun s l h ↦ Switch.step h l) ?_ ls
    exact ⟨switch_init boot, roles_init boot⟩
  refine hinv.imp fun s h ↦ ⟨?_, fun hpos ↦ ?_, fun hzero hfree ↦ ?_⟩
  · rw [h.2.count, Finset.card_filter]
    congr 1
    exact Finset.sum_congr rfl fun t _ ↦ by cases (s.pc t).duty.puts <;> rfl
  · exact ⟨h.1.key boot (h.1.on hpos boot), h.1.on hpos⟩
  · exact h.1.off (h.2.mutex_eq_none hfree) hzero

/-- One thread wants core scheduling and gives it back; another runs the work. -/
def getPutRun : List (Label Bool Bool) :=
  .get false :: List.replicate 15 (.cont false) ++
    .put false :: .work true :: List.replicate 14 (.cont true)

-- the flag of the CPU that is not online is switched as well
example :
    let s := run (step smtPair) (State.init false) (getPutRun.take 16)
    let s' := run (step smtPair) (State.init false) getPutRun
    s.schedCoreCount = 1 ∧ s.cores.schedCoreEnabled = true ∧ s.cores.coreEnabled true = true ∧
      s.cores.online true = false ∧ s'.schedCoreCount = 0 ∧ s'.pc true = .out ∧
      s'.cores.schedCoreEnabled = false ∧ s'.cores.coreEnabled true = false := by
  decide +kernel

end NcuKernel.RqLock
