import NcuKernel.CoreSched.RqLockSwitch

/-!
# One leader for the CPUs of a core

`rq->core` of the CPUs that are online always points to one of them, the same for a whole
core; a CPU that is not in the masks points to itself. `sched_core_cpu_starting` and
`sched_core_cpu_deactivate` keep it so, and none of their warnings is ever given.
-/

namespace NcuKernel.RqLock

open Runs

variable {T C : Type*}

section

variable (K : Topology C) (k : Cores C)

/-- No other CPU has `cpu` as its leader. -/
def Cores.LeadsNobody (cpu : C) : Prop := ∀ c, c ≠ cpu → k.core c ≠ cpu

/-- A CPU that is on its way in has the leader of its core, or is the first there. -/
structure Cores.Joins (cpu : C) : Prop where
  leader : k.core cpu = cpu ∨ k.online (k.core cpu) = true
  shared : ∀ c, k.online c = true → c ∈ K.siblings cpu → k.core c = k.core cpu

structure Cores.Led : Prop where
  out : ∀ c, k.smt c = false → k.core c = c
  mem : ∀ c, k.smt c = true → k.core c ∈ k.cpuSmtMask K c
  smt : ∀ c, k.online c = true → k.smt c = true
  online : ∀ c, k.online c = true → k.online (k.core c) = true
  shared : ∀ c d, k.online c = true → k.online d = true → d ∈ K.siblings c → k.core d = k.core c

/-- Core scheduling is on for all CPUs of a core that are online, or for none. -/
def Cores.Uniform : Prop :=
  ∀ c d, k.online c = true → k.online d = true → d ∈ K.siblings c →
    k.coreEnabled d = k.coreEnabled c

/-- What a thread of CPU hotplug knows about its CPU. -/
def Cores.Knows : Pc C → Prop
  | .core .starting cpu phase => k.smt cpu = true ∧ k.online cpu = false ∧
      if phase.done then k.Joins K cpu else k.core cpu = cpu
  | .core .deactivate cpu phase => k.online cpu = true ∧ (phase.done = true → k.LeadsNobody cpu)
  | _ => True

end

structure Masks (K : Topology C) (s : State T C) : Prop where
  led : s.cores.Led K
  uniform : s.cores.Uniform K
  smt_online : ∀ c, s.cores.smt c = true → s.cores.online c = true ∨ ∃ t, s.hotplug = .changing t c
  leaving : ∀ c, s.hotplug = .leaving c → s.cores.online c = true ∧ s.cores.LeadsNobody c
  knows : ∀ t, s.cores.Knows K (s.pc t)
  quiet : s.warned = false

variable {K : Topology C} {k k' : Cores C} {s s' : State T C} {t : T} {c d cpu : C} {pc : Pc C}

theorem mem_cpuSmtMask : d ∈ k.cpuSmtMask K c ↔ d ∈ K.siblings c ∧ k.smt d = true := by
  simp [Cores.cpuSmtMask]

@[simp] theorem cpuSmtMask_setCore (K : Topology C) (k : Cores C) (core : C → C) (c : C) :
    Cores.cpuSmtMask K { k with core := core } c = k.cpuSmtMask K c := rfl

/-- The mask is the same for every CPU in it. -/
theorem cpuSmtMask_eq (h : d ∈ K.siblings c) : k.cpuSmtMask K d = k.cpuSmtMask K c := by
  rw [Cores.cpuSmtMask, Cores.cpuSmtMask, K.siblings_eq c d h]

theorem mem_siblings_symm (h : d ∈ K.siblings c) : c ∈ K.siblings d := by
  rw [K.siblings_eq c d h]
  exact K.mem_siblings c

theorem nodup_cpuSmtMask (K : Topology C) (k : Cores C) (c : C) : (k.cpuSmtMask K c).Nodup :=
  (K.nodup_siblings c).filter _

/-- A mask of weight one holds its CPU only. -/
theorem eq_of_mem_cpuSmtMask (hsmt : k.smt c = true) (hlength : (k.cpuSmtMask K c).length = 1)
    (hd : d ∈ k.cpuSmtMask K c) : d = c := by
  obtain ⟨e, he⟩ := List.length_eq_one_iff.mp hlength
  have hc : c ∈ k.cpuSmtMask K c := mem_cpuSmtMask.mpr ⟨K.mem_siblings c, hsmt⟩
  rw [he, List.mem_singleton] at hc hd
  exact hd.trans hc.symm

/-- Otherwise it holds another one. -/
theorem exists_ne_of_length_ne (hsmt : k.smt c = true) (hlength : (k.cpuSmtMask K c).length ≠ 1) :
    ∃ d ∈ k.cpuSmtMask K c, d ≠ c := by
  by_contra hno
  push Not at hno
  have hc : c ∈ k.cpuSmtMask K c := mem_cpuSmtMask.mpr ⟨K.mem_siblings c, hsmt⟩
  have hsingle : k.cpuSmtMask K c = [c] :=
    List.Perm.eq_singleton ((List.perm_ext_iff_of_nodup (nodup_cpuSmtMask K k c)
      (List.nodup_singleton c)).mpr fun d ↦ ⟨fun hd ↦ by simp [hno d hd], fun hd ↦ by
        rwa [List.mem_singleton.mp hd]⟩)
  exact hlength (by rw [hsingle]; rfl)

/-! ## Steps that leave the masks and the leaders alone -/

structure SameMasks (k k' : Cores C) : Prop where
  smt : k'.smt = k.smt
  online : k'.online = k.online
  core : k'.core = k.core

theorem SameMasks.knows (h : SameMasks k k') (hpc : k.Knows K pc) : k'.Knows K pc := by
  cases pc with
  | core job cpu phase =>
      cases job with
      | flip => trivial
      | starting =>
          obtain ⟨hsmt, honline, hjoins⟩ := hpc
          refine ⟨by rw [h.smt, hsmt], by rw [h.online, honline], ?_⟩
          split_ifs at hjoins ⊢
          · refine ⟨?_, ?_⟩
            · rw [h.core, h.online]
              exact hjoins.leader
            · rw [h.core, h.online]
              exact hjoins.shared
          · rw [h.core, hjoins]
      | deactivate =>
          refine ⟨by rw [h.online, hpc.1], ?_⟩
          rw [Cores.LeadsNobody, h.core]
          exact hpc.2
  | _ => trivial

theorem SameMasks.led (h : SameMasks k k') (hled : k.Led K) : k'.Led K := by
  obtain ⟨hsmt, honline, hcore⟩ := h
  refine ⟨?_, ?_, ?_, ?_, ?_⟩ <;> simp only [Cores.cpuSmtMask, hsmt, honline, hcore]
  · exact hled.out
  · exact hled.mem
  · exact hled.smt
  · exact hled.online
  · exact hled.shared

theorem Masks.same (h : Masks K s) (hcores : SameMasks s.cores s'.cores)
    (huniform : s'.cores.Uniform K) (hhotplug : s'.hotplug = s.hotplug)
    (hwarned : s'.warned = s.warned)
    (hpc : ∀ u, s'.pc u = s.pc u ∨ s.cores.Knows K (s'.pc u)) : Masks K s' where
  led := hcores.led h.led
  uniform := huniform
  smt_online := by
    rw [hcores.smt, hcores.online, hhotplug]
    exact h.smt_online
  leaving := by
    rw [hcores.online, hhotplug]
    simp only [Cores.LeadsNobody, hcores.core]
    exact h.leaving
  knows u := by
    rcases hpc u with hsame | hknows
    · rw [hsame]
      exact hcores.knows (h.knows u)
    · exact hcores.knows hknows
  quiet := hwarned.trans h.quiet

/-- Only threads of CPU hotplug know anything. -/
theorem knows_of_no_change (h : pc.duty.changes = none) : k.Knows K pc := by
  cases pc with
  | core job cpu phase =>
      cases job with
      | flip => trivial
      | _ => simp [Pc.duty, Job.duty] at h
  | _ => trivial

/-! ## The hotplug callbacks -/

theorem Cores.Led.mem_of_core (h : k.Led K) (hcore : k.core c = cpu) (hne : c ≠ cpu) :
    c ∈ k.cpuSmtMask K cpu := by
  have hsmt : k.smt c = true := by
    by_contra hno
    exact hne ((h.out c (by simpa using hno)).symm.trans hcore)
  have hmem := (mem_cpuSmtMask.mp (h.mem c hsmt)).1
  rw [hcore] at hmem
  exact mem_cpuSmtMask.mpr ⟨mem_siblings_symm hmem, hsmt⟩

theorem Cores.Led.core_core (h : k.Led K) (hc : k.online c = true) :
    k.core (k.core c) = k.core c :=
  h.shared c (k.core c) hc (h.online c hc) (mem_cpuSmtMask.mp (h.mem c (h.smt c hc))).1

/-- Siblings that are online are in a mask together. -/
theorem Cores.Led.mem_cpuSmtMask_iff (h : k.Led K) (hc : k.online c = true)
    (hd : k.online d = true) (hsib : d ∈ K.siblings c) (cpu : C) :
    d ∈ k.cpuSmtMask K cpu ↔ c ∈ k.cpuSmtMask K cpu := by
  rw [mem_cpuSmtMask, mem_cpuSmtMask, h.smt c hc, h.smt d hd]
  simp only [and_true]
  refine ⟨fun hd' ↦ ?_, fun hc' ↦ ?_⟩
  · rw [← K.siblings_eq cpu d hd']
    exact mem_siblings_symm hsib
  · rwa [← K.siblings_eq cpu c hc']

section

variable [DecidableEq C]

theorem Cores.Led.uniform_flip (h : k.Led K) (huniform : k.Uniform K) (enabled : Bool) (cpu : C) :
    (k.__schedCoreFlip K enabled cpu).Uniform K := by
  intro c d hc hd hsib
  have hiff := h.mem_cpuSmtMask_iff hc hd hsib cpu
  simp only [Cores.__schedCoreFlip]
  by_cases hin : c ∈ k.cpuSmtMask K cpu
  · rw [if_pos hin, if_pos (hiff.mpr hin)]
  · rw [if_neg hin, if_neg (mt hiff.mp hin)]
    exact huniform c d hc hd hsib

/-- The CPUs of the mask other than `cpu` itself are online. -/
theorem Cores.Led.starting (h : k.Led K) (hsmt : k.smt cpu = true) (hoff : k.online cpu = false)
    (hself : k.core cpu = cpu) (hon : ∀ d ∈ k.cpuSmtMask K cpu, d ≠ cpu → k.online d = true) :
    (k.schedCoreCpuStarting K cpu).1.Led K ∧ (k.schedCoreCpuStarting K cpu).1.Joins K cpu ∧
      (k.schedCoreCpuStarting K cpu).2 = false := by
  have hne : ∀ d, k.online d = true → d ≠ cpu := by
    rintro d hd rfl
    simp [hoff] at hd
  have hmask : ∀ d, k.online d = true → d ∈ K.siblings cpu → d ∈ k.cpuSmtMask K cpu :=
    fun d hd hsib ↦ mem_cpuSmtMask.mpr ⟨hsib, h.smt d hd⟩
  simp only [Cores.schedCoreCpuStarting]
  split_ifs with hlength
  · refine ⟨h, ⟨.inl hself, fun d hd hsib ↦ ?_⟩, by simp [hself]⟩
    exact absurd (eq_of_mem_cpuSmtMask hsmt hlength (hmask d hd hsib)) (hne d hd)
  · obtain ⟨d, hd, hdne⟩ := exists_ne_of_length_ne hsmt hlength
    have hdon := hon d hd hdne
    split
    · -- the leader of any other CPU of the core would have been found
      rename_i hnone
      have hlead := h.online d hdon
      have hmem : k.core d ∈ k.cpuSmtMask K cpu := by
        rw [← cpuSmtMask_eq (mem_cpuSmtMask.mp hd).1]
        exact h.mem d (h.smt d hdon)
      have := List.find?_eq_none.mp hnone (k.core d) hmem
      simp [hne _ hlead, h.core_core hdon] at this
    · rename_i coreRq hfound
      have hmem := List.mem_of_find?_eq_some hfound
      have hlead : coreRq ≠ cpu ∧ k.core coreRq = coreRq := by
        simpa using List.find?_some hfound
      have hleadOn := hon coreRq hmem hlead.1
      have hothers : ∀ d, k.online d = true → d ∈ K.siblings cpu → k.core d = coreRq :=
        fun d hd hsib ↦ by
          rw [← hlead.2]
          refine h.shared coreRq d hleadOn hd ?_
          rwa [K.siblings_eq cpu coreRq (mem_cpuSmtMask.mp hmem).1]
      refine ⟨⟨fun c hc ↦ ?_, fun c hc ↦ ?_, h.smt, fun c hc ↦ ?_, fun c d hc hd hsib ↦ ?_⟩,
        ⟨.inr ?_, fun d hd hsib ↦ ?_⟩, ?_⟩
      · have hcne : c ≠ cpu := by
          rintro rfl
          simp [hsmt] at hc
        simpa [hcne] using h.out c hc
      · by_cases hcne : c = cpu
        · subst hcne
          simpa using hmem
        · simpa [hcne] using h.mem c hc
      · simpa [hne c hc] using h.online c hc
      · simpa [hne c hc, hne d hd] using h.shared c d hc hd hsib
      · simpa using hleadOn
      · simpa [hne d hd] using hothers d hd hsib
      · simp only [hself, ne_eq, not_true_eq_false, false_or, decide_eq_false_iff_not, not_not]
        intro d hd
        by_cases hdne : d = cpu
        · simp [hdne]
        · simpa [hdne] using hothers d (hon d hd hdne) (mem_cpuSmtMask.mp hd).1

theorem Cores.Led.deactivate (h : k.Led K) (hcpu : k.online cpu = true)
    (hon : ∀ d ∈ k.cpuSmtMask K cpu, d ≠ cpu → k.online d = true) :
    (k.schedCoreCpuDeactivate K cpu).1.Led K ∧
      (k.schedCoreCpuDeactivate K cpu).1.LeadsNobody cpu ∧
      (k.schedCoreCpuDeactivate K cpu).2 = false := by
  have hsmt := h.smt cpu hcpu
  simp only [Cores.schedCoreCpuDeactivate]
  split_ifs with hlength hleader
  · refine ⟨h, fun c hne hc ↦ ?_, ?_⟩
    · exact hne (eq_of_mem_cpuSmtMask hsmt hlength (h.mem_of_core hc hne))
    · simpa using eq_of_mem_cpuSmtMask hsmt hlength (h.mem cpu hsmt)
  · refine ⟨h, fun c hne hc ↦ hleader ?_, rfl⟩
    have hcore : k.core c = cpu := hc
    have hmem := h.mem_of_core hcore hne
    exact (h.shared cpu c hcpu (hon c hmem hne) (mem_cpuSmtMask.mp hmem).1).symm.trans hcore
  · split
    · rename_i hnone
      obtain ⟨d, hd, hne⟩ := exists_ne_of_length_ne hsmt hlength
      exact absurd hne (by simpa using List.find?_eq_none.mp hnone d hd)
    · rename_i coreRq hfound
      have hmem := List.mem_of_find?_eq_some hfound
      have hne : coreRq ≠ cpu := by simpa using List.find?_some hfound
      refine ⟨⟨fun c hc ↦ ?_, fun c hc ↦ ?_, h.smt, fun c hc ↦ ?_, fun c d hc hd hsib ↦ ?_⟩,
        fun c hcne hc ↦ ?_, rfl⟩
      · have hout : c ∉ k.cpuSmtMask K cpu := fun hin ↦ by
          rw [(mem_cpuSmtMask.mp hin).2] at hc
          simp at hc
        simpa [hout] using h.out c hc
      · by_cases hin : c ∈ k.cpuSmtMask K cpu
        · simpa [hin, cpuSmtMask_eq (mem_cpuSmtMask.mp hin).1] using hmem
        · simpa [hin] using h.mem c hc
      · by_cases hin : c ∈ k.cpuSmtMask K cpu
        · simpa [hin] using hon coreRq hmem hne
        · simpa [hin] using h.online c hc
      · have hiff := h.mem_cpuSmtMask_iff hc hd hsib cpu
        by_cases hin : c ∈ k.cpuSmtMask K cpu
        · simp [hin, hiff.mpr hin]
        · simpa [hin, mt hiff.mp hin] using h.shared c d hc hd hsib
      · by_cases hin : c ∈ k.cpuSmtMask K cpu
        · simp only [hin, if_true] at hc
          exact hne hc
        · simp only [hin, if_false] at hc
          exact hin (h.mem_of_core hc hcne)

end

/-! ## Every step -/

variable [Fintype T]

theorem Roles.no_change (h : Roles s) {u : T} (hne : ∀ c, s.hotplug ≠ .changing u c) :
    (s.pc u).duty.changes = none := by
  cases hc : (s.pc u).duty.changes with
  | none => rfl
  | some c => exact absurd ((h.changes u c).mpr hc) (hne c)

/-- Beside the thread that changes a CPU nobody knows anything. -/
theorem Roles.knows_of_changing (h : Roles s) (hmine : s.hotplug = .changing t cpu) {u : T}
    (hu : u ≠ t) : k.Knows K (s.pc u) :=
  knows_of_no_change (h.no_change fun c ↦ by simp [hmine, hu.symm])

omit [Fintype T] in
theorem Masks.online_of_mem (h : Masks K s) (hmine : s.hotplug = .changing t cpu)
    (hd : d ∈ s.cores.cpuSmtMask K cpu) (hne : d ≠ cpu) : s.cores.online d = true :=
  (h.smt_online d (mem_cpuSmtMask.mp hd).2).resolve_right fun ⟨u, hu⟩ ↦ by
    rw [hmine] at hu
    injection hu with _ heq
    exact hne heq.symm

variable [DecidableEq T]

omit [Fintype T] in
theorem Masks.spins (h : Masks K s) (hs : SpinStep t s s' pc) (hknows : s.cores.Knows K pc) :
    Masks K s' := by
  have hrest := hs.rest
  refine h.same (by rw [hrest]; exact ⟨rfl, rfl, rfl⟩) (by rw [hrest]; exact h.uniform)
    (by rw [hrest]) (by rw [hrest]) fun u ↦ ?_
  by_cases hu : u = t
  · exact .inr (by simpa [hs.pc, hu] using hknows)
  · exact .inl (by simp [hs.pc, hu])

variable [DecidableEq C]

omit [DecidableEq T] [DecidableEq C] [Fintype T] in
theorem Cores.Knows.core {job : Job C} {phase phase' : Phase C}
    (h : k.Knows K (.core job cpu phase)) (hdone : phase'.done = phase.done) :
    k.Knows K (.core job cpu phase') := by
  cases job with
  | flip => trivial
  | starting | deactivate =>
      simp only [Cores.Knows, hdone]
      exact h

theorem Masks.body (h : Masks K s) (hroles : Roles s) {job : Job C}
    (hpc : s.pc t = .core job cpu .body)
    (hs : s.schedCoreLock K t job cpu .body = some s') : Masks K s' := by
  have hknows := hpc ▸ h.knows t
  have hmoved : s'.pc = Function.update s.pc t
      (.core job cpu (.unlock (s.cores.cpuSmtMask K cpu))) := Option.some.inj hs ▸ rfl
  have hrest : s'.cores = (s.cores.body K job cpu).1 ∧ s'.hotplug = s.hotplug ∧
      s'.warned = (s.warned || (s.cores.body K job cpu).2) := Option.some.inj hs ▸ ⟨rfl, rfl, rfl⟩
  obtain ⟨hcores, hhotplug, hwarned⟩ := hrest
  -- a callback that keeps the masks and leaves its thread with the right knowledge
  have hcallback : job.duty cpu = { changes := some cpu } →
      (∃ core, (s.cores.body K job cpu).1 = { s.cores with core := core }) →
      (s.cores.body K job cpu).1.Led K → (s.cores.body K job cpu).2 = false →
      (s.cores.body K job cpu).1.Knows K (s'.pc t) → Masks K s' := by
    rintro hduty ⟨core, heq⟩ hled hquiet hself
    have hmine : s.hotplug = .changing t cpu := (hroles.changes t cpu).mpr (by
      rw [hpc, Pc.duty, hduty])
    refine ⟨hcores ▸ hled, ?_, ?_, fun c hc ↦ ?_, fun u ↦ ?_, ?_⟩
    · rw [hcores, heq]
      exact h.uniform
    · rw [hcores, heq, hhotplug]
      exact h.smt_online
    · simp [hhotplug, hmine] at hc
    · by_cases hu : u = t
      · rw [hu, hcores]
        exact hself
      · rw [hmoved, Function.update_of_ne hu]
        exact hroles.knows_of_changing hmine hu
    · rw [hwarned, h.quiet, hquiet]
      rfl
  have honline : job.duty cpu = { changes := some cpu } →
      ∀ d ∈ s.cores.cpuSmtMask K cpu, d ≠ cpu → s.cores.online d = true := fun hduty d hd ↦
    h.online_of_mem ((hroles.changes t cpu).mpr (by rw [hpc, Pc.duty, hduty])) hd
  cases job with
  | flip enabled mask =>
      refine h.same (by rw [hcores]; exact ⟨rfl, rfl, rfl⟩) ?_ hhotplug
        (by rw [hwarned]; exact Bool.or_false _) fun u ↦ ?_
      · rw [hcores]
        exact h.led.uniform_flip h.uniform enabled cpu
      · by_cases hu : u = t
        · exact .inr (by simp [hmoved, hu, Cores.Knows])
        · exact .inl (by simp [hmoved, hu])
  | starting =>
      have heq := s.cores.body_eq (K := K) .starting cpu (.inl rfl)
      obtain ⟨hled, hjoins, hquiet⟩ := h.led.starting hknows.1 hknows.2.1 hknows.2.2 (honline rfl)
      refine hcallback rfl heq hled hquiet ?_
      obtain ⟨core, heq⟩ := heq
      rw [hmoved, Function.update_self]
      refine ⟨?_, ?_, hjoins⟩ <;> rw [heq]
      · exact hknows.1
      · exact hknows.2.1
  | deactivate =>
      have heq := s.cores.body_eq (K := K) .deactivate cpu (.inr rfl)
      obtain ⟨hled, hleads, hquiet⟩ := h.led.deactivate hknows.1 (honline rfl)
      refine hcallback rfl heq hled hquiet ?_
      obtain ⟨core, heq⟩ := heq
      rw [hmoved, Function.update_self]
      refine ⟨?_, fun _ ↦ hleads⟩
      rw [heq]
      exact hknows.1

/-- A CPU that has joined goes online. -/
theorem Cores.Led.setOnline (h : k.Led K) (hsmt : k.smt cpu = true) (hjoins : k.Joins K cpu) :
    Cores.Led K { k with online := Function.update k.online cpu true } := by
  have hmono : ∀ c, k.online c = true → Function.update k.online cpu true c = true := by
    intro c hc
    by_cases hne : c = cpu <;> simp [hne, hc]
  refine ⟨h.out, h.mem, fun c hc ↦ ?_, fun c hc ↦ ?_, fun c d hc hd hsib ↦ ?_⟩
  · by_cases hne : c = cpu
    · exact hne ▸ hsmt
    · exact h.smt c (by simpa [hne] using hc)
  · by_cases hne : c = cpu
    · subst hne
      rcases hjoins.leader with hself | hleader
      · simp [hself]
      · exact hmono _ hleader
    · exact hmono _ (h.online c (by simpa [hne] using hc))
  · by_cases hc' : c = cpu <;> by_cases hd' : d = cpu
    · rw [hc', hd']
    · subst hc'
      exact hjoins.shared d (by simpa [hd'] using hd) hsib
    · subst hd'
      exact (hjoins.shared c (by simpa [hc'] using hc) (mem_siblings_symm hsib)).symm
    · exact h.shared c d (by simpa [hc'] using hc) (by simpa [hd'] using hd) hsib

theorem Masks.afterUnlock (h : Masks K s) (hroles : Roles s) (hswitch : Switch K s) {job : Job C}
    (hpc : s.pc t = .core job cpu (.unlock [])) : Masks K (s.afterUnlock K t job cpu) := by
  have hknows := hpc ▸ h.knows t
  have hothers : s.hotplug = .changing t cpu → ∀ (k : Cores C) u,
      k.Knows K (Function.update s.pc t .out u) := fun hmine k u ↦ by
    by_cases hu : u = t
    · simp [hu, Cores.Knows]
    · rw [Function.update_of_ne hu]
      exact hroles.knows_of_changing hmine hu
  have honly : s.hotplug = .changing t cpu → ∀ c, c ≠ cpu → s.cores.smt c = true →
      s.cores.online c = true := fun hmine c hne hc ↦
    (h.smt_online c hc).resolve_right fun ⟨u, hu⟩ ↦ by
      rw [hmine] at hu
      injection hu with _ heq
      exact hne heq.symm
  cases job with
  | flip enabled mask => exact h.spins (spinStep_goto ..) trivial
  | starting =>
      have hmine : s.hotplug = .changing t cpu := (hroles.changes t cpu).mpr (by rw [hpc]; rfl)
      obtain ⟨enabled, hall⟩ := hswitch.exists_all hroles (hroles.apart (by simp [hmine]))
      refine ⟨h.led.setOnline hknows.1 hknows.2.2, fun c d _ _ _ ↦ (hall d).trans (hall c).symm,
        fun c hc ↦ .inl ?_, fun c hc ↦ ?_, hothers hmine _, h.quiet⟩
      · by_cases hne : c = cpu
        · simp [State.afterUnlock, hne]
        · simpa [State.afterUnlock, hne] using honly hmine c hne hc
      · simp [State.afterUnlock] at hc
  | deactivate =>
      have hmine : s.hotplug = .changing t cpu := (hroles.changes t cpu).mpr (by rw [hpc]; rfl)
      refine ⟨h.led, h.uniform, fun c hc ↦ .inl ?_, fun c hc ↦ ?_, hothers hmine _, h.quiet⟩
      · by_cases hne : c = cpu
        · exact hne ▸ hknows.1
        · exact honly hmine c hne hc
      · obtain rfl : cpu = c := by simpa [State.afterUnlock] using hc
        exact ⟨hknows.1, hknows.2 rfl⟩

theorem Masks.schedCoreLock (h : Masks K s) (hroles : Roles s) (hswitch : Switch K s)
    {job : Job C} {phase : Phase C} (hpc : s.pc t = .core job cpu phase)
    (hs : s.schedCoreLock K t job cpu phase = some s') : Masks K s' := by
  have hknows := hpc ▸ h.knows t
  cases phase with
  | lock rest =>
      cases rest with
      | nil => exact Option.some.inj hs ▸ h.spins (spinStep_goto ..) (hknows.core rfl)
      | cons c rest =>
          simp only [State.schedCoreLock] at hs
          split_ifs at hs
          exact Option.some.inj hs ▸ h.spins (spinStep_own ..) (hknows.core rfl)
  | body => exact h.body hroles hpc hs
  | unlock rest =>
      cases rest with
      | nil => exact Option.some.inj hs ▸ h.afterUnlock hroles hswitch hpc
      | cons c rest => exact Option.some.inj hs ▸ h.spins (spinStep_own ..) (hknows.core rfl)

omit [Fintype T] [DecidableEq C] in
/-- A thread that is not one of CPU hotplug goes on; the masks and the leaders stay. -/
theorem Masks.goto (h : Masks K s) (pc : Pc C) (hpc : s'.pc = Function.update s.pc t pc)
    (hduty : pc.duty.changes = none) (hcores : SameMasks s.cores s'.cores)
    (huniform : s'.cores.Uniform K) (hhotplug : s'.hotplug = s.hotplug)
    (hwarned : s'.warned = s.warned) : Masks K s' := by
  refine h.same hcores huniform hhotplug hwarned fun u ↦ ?_
  by_cases hu : u = t
  · exact .inr (by simpa [hpc, hu] using knows_of_no_change hduty)
  · exact .inl (by simp [hpc, hu])

omit [Fintype T] in
theorem Masks.flip (h : Masks K s) (hswitch : Switch K s) (hpc : s.pc t = pc)
    (hs : s.flip K t pc = some s') : Masks K s' := by
  cases pc with
  | flipStart enabled =>
      simp only [State.flip] at hs
      split_ifs at hs
      obtain rfl := Option.some.inj hs
      exact h.goto _ rfl rfl ⟨rfl, rfl, rfl⟩ h.uniform rfl rfl
  | flipNext enabled mask =>
      cases mask <;>
        exact Option.some.inj hs ▸ h.spins (spinStep_goto ..) (knows_of_no_change rfl)
  | flipOffline enabled rest =>
      cases rest with
      | cons c rest =>
          have hoffline := (hpc ▸ hswitch.knows t).2.2.1 c (by simp)
          obtain rfl := Option.some.inj hs
          refine h.goto _ rfl rfl ⟨rfl, rfl, rfl⟩ (fun d e hd he hsib ↦ ?_) rfl rfl
          have hne : ∀ x, s.cores.online x = true → x ≠ c := by
            rintro x hx rfl
            simp [hoffline] at hx
          simpa [hne d hd, hne e he] using h.uniform d e hd he hsib
      | nil =>
          obtain rfl := Option.some.inj hs
          refine h.goto _ rfl ?_ ⟨rfl, rfl, rfl⟩ h.uniform rfl rfl
          cases enabled <;> rfl
  | _ => simp [State.flip] at hs

omit [DecidableEq C] in
theorem Masks.count (h : Masks K s) (hs : s.count t pc = some s') : Masks K s' := by
  cases pc with
  | getMutex | putMutex | sync =>
      simp only [State.count] at hs
      split_ifs at hs
      obtain rfl := Option.some.inj hs
      exact h.goto _ rfl rfl ⟨rfl, rfl, rfl⟩ h.uniform rfl rfl
  | getTest =>
      obtain rfl := Option.some.inj hs
      refine h.goto _ rfl ?_ ⟨rfl, rfl, rfl⟩ h.uniform rfl rfl
      split_ifs <;> rfl
  | enable | getInc | disable =>
      obtain rfl := Option.some.inj hs
      exact h.goto _ rfl rfl ⟨rfl, rfl, rfl⟩ h.uniform rfl rfl
  | putDec | putTest =>
      simp only [State.count] at hs
      split_ifs at hs <;> obtain rfl := Option.some.inj hs <;>
        exact h.goto _ rfl rfl ⟨rfl, rfl, rfl⟩ h.uniform rfl rfl
  | _ => simp [State.count] at hs

theorem Masks.cont (h : Masks K s) (hroles : Roles s) (hswitch : Switch K s)
    (hs : s.cont K t = some s') : Masks K s' := by
  simp only [State.cont] at hs
  split at hs
  · obtain ⟨pc, hspin, hduty, -⟩ := spinStep_rawSpinRqLock hs
    exact h.spins hspin (knows_of_no_change (by rw [hduty]))
  · exact Option.some.inj hs ▸ h.spins (spinStep_goto ..)
      (knows_of_no_change (by rw [duty_compare]))
  · exact h.schedCoreLock hroles hswitch ‹_› hs
  · exact h.flip hswitch ‹_› hs
  · exact h.flip hswitch ‹_› hs
  · exact h.flip hswitch ‹_› hs
  · exact h.count hs

omit [Fintype T] [DecidableEq T] in
/-- A CPU enters the masks, as its own leader. -/
theorem Cores.Led.setSmt (h : k.Led K) (hcpu : k.smt cpu = false) :
    Cores.Led K { k with smt := Function.update k.smt cpu true } := by
  have hmono : ∀ c, k.smt c = true → Function.update k.smt cpu true c = true := by
    intro c hc
    by_cases hne : c = cpu <;> simp [hne, hc]
  refine ⟨fun c hc ↦ ?_, fun c hc ↦ ?_, fun c hc ↦ hmono c (h.smt c hc), h.online, h.shared⟩
  · by_cases hne : c = cpu
    · simp [hne] at hc
    · exact h.out c (by simpa [hne] using hc)
  · by_cases hne : c = cpu
    · subst hne
      exact mem_cpuSmtMask.mpr ⟨by simp [h.out c hcpu, K.mem_siblings], by simp [h.out c hcpu]⟩
    · obtain ⟨hsib, hsmt⟩ := mem_cpuSmtMask.mp (h.mem c (by simpa [hne] using hc))
      exact mem_cpuSmtMask.mpr ⟨hsib, hmono _ hsmt⟩

omit [Fintype T] [DecidableEq T] in
/-- A CPU that leads nobody leaves the masks. -/
theorem Cores.Led.dying (h : k.Led K) (hleads : k.LeadsNobody cpu) :
    (k.schedCoreCpuDying cpu).Led K := by
  have hne : ∀ {f : C → Bool} {c}, Function.update f cpu false c = true → c ≠ cpu ∧ f c = true := by
    intro f c hc
    by_cases heq : c = cpu
    · simp [heq] at hc
    · exact ⟨heq, by simpa [heq] using hc⟩
  refine ⟨fun c hc ↦ ?_, fun c hc ↦ ?_, fun c hc ↦ ?_, fun c hc ↦ ?_, fun c d hc hd hsib ↦ ?_⟩
  · by_cases heq : c = cpu
    · simp [Cores.schedCoreCpuDying, heq]
    · have hout := h.out c (by simpa [Cores.schedCoreCpuDying, heq] using hc)
      simpa [Cores.schedCoreCpuDying, heq] using hout
  · obtain ⟨hcne, hsmt⟩ := hne hc
    obtain ⟨hsib, hcore⟩ := mem_cpuSmtMask.mp (h.mem c hsmt)
    refine mem_cpuSmtMask.mpr ⟨?_, ?_⟩
    · simpa [Cores.schedCoreCpuDying, hcne] using hsib
    · simpa [Cores.schedCoreCpuDying, hcne, hleads c hcne] using hcore
  · obtain ⟨hcne, hon⟩ := hne hc
    simpa [Cores.schedCoreCpuDying, hcne] using h.smt c hon
  · obtain ⟨hcne, hon⟩ := hne hc
    simpa [Cores.schedCoreCpuDying, hcne, hleads c hcne] using h.online c hon
  · obtain ⟨hcne, hcon⟩ := hne hc
    obtain ⟨hdne, hdon⟩ := hne hd
    simpa [Cores.schedCoreCpuDying, hcne, hdne] using h.shared c d hcon hdon hsib

theorem Masks.next (h : Masks K s) (hroles : Roles s) (hswitch : Switch K s) {l : Label T C}
    (hs : next K s l = some s') : Masks K s' := by
  have hothers : (∀ u c, s.hotplug ≠ .changing u c) → ∀ (k : Cores C) u, k.Knows K (s.pc u) :=
    fun hno k u ↦ knows_of_no_change (hroles.no_change (hno u))
  cases l with
  | lock t rq | trylock t rq | doubleLock t rq1 rq2 =>
      simp only [RqLock.next] at hs
      split_ifs at hs
      exact Option.some.inj hs ▸ h.spins (spinStep_goto ..) trivial
  | unlock t =>
      obtain ⟨-, pc, hspin, hduty, -⟩ := spinStep_rawSpinRqUnlock hs
      exact h.spins hspin (knows_of_no_change (by rw [hduty]))
  | cont t => exact h.cont hroles hswitch hs
  | get t =>
      simp only [RqLock.next] at hs
      split_ifs at hs
      · exact Option.some.inj hs ▸ h.spins (spinStep_goto ..) trivial
      · exact Option.some.inj hs ▸ h.same ⟨rfl, rfl, rfl⟩ h.uniform rfl rfl fun _ ↦ .inl rfl
  | put t =>
      simp only [RqLock.next] at hs
      split_ifs at hs <;>
        exact Option.some.inj hs ▸ h.same ⟨rfl, rfl, rfl⟩ h.uniform rfl rfl fun _ ↦ .inl rfl
  | work t =>
      simp only [RqLock.next] at hs
      split_ifs at hs
      exact Option.some.inj hs ▸ h.goto .putDec rfl rfl ⟨rfl, rfl, rfl⟩ h.uniform rfl rfl
  | bringUp t cpu =>
      simp only [RqLock.next] at hs
      split_ifs at hs with hpc
      obtain ⟨-, hidle, -, hsmt⟩ := hpc
      obtain rfl := Option.some.inj hs
      refine ⟨h.led.setSmt hsmt, h.uniform, fun c hc ↦ ?_, fun c hc ↦ by simp at hc, fun u ↦ ?_,
        h.quiet⟩
      · by_cases hne : c = cpu
        · exact .inr ⟨t, by rw [hne]⟩
        · exact .inl ((h.smt_online c (by simpa [hne] using hc)).resolve_right (by simp [hidle]))
      · by_cases hu : u = t
        · simp only [State.goto, hu, Function.update_self]
          refine ⟨by simp, ?_, h.led.out cpu hsmt⟩
          by_contra hon
          simp [h.led.smt cpu (by simpa using hon)] at hsmt
        · simp only [State.goto, Function.update_of_ne hu]
          exact hothers (by simp [hidle]) _ u
  | takeDown t cpu =>
      simp only [RqLock.next] at hs
      split_ifs at hs with hpc
      obtain ⟨-, hidle, -, honline⟩ := hpc
      obtain rfl := Option.some.inj hs
      refine ⟨h.led, h.uniform, fun c hc ↦ ?_, fun c hc ↦ by simp at hc, fun u ↦ ?_, h.quiet⟩
      · exact .inl ((h.smt_online c hc).resolve_right (by simp [hidle]))
      · by_cases hu : u = t
        · simp only [State.goto, hu, Function.update_self]
          exact ⟨honline, by simp [Phase.done]⟩
        · simp only [State.goto, Function.update_of_ne hu]
          exact hothers (by simp [hidle]) _ u
  | dying =>
      simp only [RqLock.next] at hs
      split at hs
      · rename_i cpu hleaving
        split_ifs at hs
        obtain rfl := Option.some.inj hs
        obtain ⟨-, hleads⟩ := h.leaving cpu hleaving
        have honline : ∀ c, Function.update s.cores.online cpu false c = true →
            s.cores.online c = true := fun c hc ↦ by
          by_cases hne : c = cpu
          · simp [hne] at hc
          · simpa [hne] using hc
        refine ⟨h.led.dying hleads, fun c d hc hd hsib ↦ ?_, fun c hc ↦ .inl ?_,
          fun c hc ↦ by simp at hc, hothers (by simp [hleaving]) _, h.quiet⟩
        · exact h.uniform c d (honline c hc) (honline d hd) hsib
        · by_cases hne : c = cpu
          · simp [Cores.schedCoreCpuDying, hne] at hc
          · have hsmt : s.cores.smt c = true := by
              simpa [Cores.schedCoreCpuDying, hne] using hc
            have := (h.smt_online c hsmt).resolve_right (by simp [hleaving])
            simpa [Cores.schedCoreCpuDying, hne] using this
      · simp at hs
  | downFailed =>
      simp only [RqLock.next] at hs
      split at hs
      · rename_i cpu hleaving
        obtain rfl := Option.some.inj hs
        refine ⟨h.led, h.uniform, fun c hc ↦ .inl ?_, fun c hc ↦ by simp at hc,
          hothers (by simp [hleaving]) _, h.quiet⟩
        exact (h.smt_online c hc).resolve_right (by simp [hleaving])
      · simp at hs

omit [Fintype T] [DecidableEq T] in
theorem masks_init (K : Topology C) (boot : C) : Masks K (State.init boot : State T C) where
  led :=
    { out := fun _ _ ↦ rfl
      mem := fun c hc ↦ mem_cpuSmtMask.mpr ⟨K.mem_siblings c, hc⟩
      smt := fun _ hc ↦ hc
      online := fun _ hc ↦ hc
      shared := fun c d hc hd _ ↦ by
        simp only [State.init, decide_eq_true_eq] at hc hd ⊢
        rw [hc, hd] }
  uniform _ _ _ _ _ := rfl
  smt_online _ hc := .inl hc
  leaving _ hc := by simp [State.init] at hc
  knows _ := trivial
  quiet := rfl

end NcuKernel.RqLock
