import NcuKernel.Sched.Coherence

/-!
# Weight without privilege

A task without `CAP_SYS_NICE` and its descendants act on themselves. `nice` and
`__sched_setscheduler` compare what is asked for with `task_nice` and consult
`can_nice`; `my_set_process_priority` consults nothing. As long as no member of the
family asks it for more than the permission checks would have granted, no member
gains weight.
-/

set_option linter.style.nameCheck false

namespace NcuKernel.Sched

open Runs

/-! ## What the checks of a successful call say -/

section Checks

variable (K : Kernel)

structure Granted (p : TaskStruct) (policy : Policy) (attr : SchedAttr) : Prop where
  fair : p.policy.InFairClass → policy.InFairClass
  nice : fairPolicy K policy = true → attr.schedNice < taskNice p →
    niceToRlimit attr.schedNice ≤ p.cred.rlimitNice
  leaveIdle : p.policy = .idle → policy ≠ .idle → niceToRlimit (taskNice p) ≤ p.cred.rlimitNice

theorem granted_of_permissionChecks {current p : TaskStruct} {policy : Policy}
    {resetOnFork : Bool} {attr : SchedAttr} (hcap : current.cred.capSysNice = false)
    (hrtprio : p.cred.rlimitRtprio = 0)
    (h : ∀ c ∈ permissionChecks K current p policy resetOnFork attr, c.1 = false) :
    Granted K p policy attr := by
  simp only [permissionChecks, List.mem_cons, List.not_mem_nil, or_false, forall_eq_or_imp,
    forall_eq, hrtprio] at h
  obtain ⟨hnice, hrt, _, hdl, hidle, _, _⟩ := h
  refine ⟨fun hfair ↦ ?_, fun hf hlt ↦ ?_, fun hp hpolicy ↦ ?_⟩
  · obtain ⟨_, hprt⟩ := p.policy.inFairClass_iff.mp hfair
    rw [Policy.inFairClass_iff]
    refine ⟨hdl, ?_⟩
    by_contra hpolicy
    have hpolicy' : rtPolicy policy = true := by simpa using hpolicy
    -- a real-time policy would be a new one
    have hne : policy ≠ p.policy := by
      rintro rfl
      simp [hprt] at hpolicy'
    simp [hpolicy', hne] at hrt
  · exact niceToRlimit_le_of_canNice hcap (by simpa [hf, hlt] using hnice)
  · refine niceToRlimit_le_of_canNice hcap ?_
    simpa [taskHasIdlePolicy, hp, idlePolicy, hpolicy] using hidle

theorem __schedSetscheduler_granted {env : SetschedEnv} {current p q : TaskStruct}
    {isStop : Bool} {piTaskPrio : Option ℤ} {attr : SchedAttr} {pi : Bool}
    (hcap : current.cred.capSysNice = false) (hrtprio : p.cred.rlimitRtprio = 0)
    (hok : __schedSetscheduler K env current p isStop piTaskPrio attr true pi = .ok q) :
    (q.policy = p.policy ∧ q.staticPrio = p.staticPrio ∧ q.seLoad = p.seLoad) ∨
      (Granted K p q.policy attr ∧ q.seLoad = loadFor K q.policy q.staticPrio ∧
        q.staticPrio = if fairPolicy K q.policy then niceToPrio attr.schedNice
          else p.staticPrio) := by
  obtain ⟨policy, resetOnFork, hreq, hearly, hcases⟩ := __schedSetscheduler_ok K hok
  have hgranted : Granted K p policy attr := by
    rw [firstError_eq_none_iff] at hearly
    apply granted_of_permissionChecks K hcap hrtprio
    intro c hc
    apply hearly
    simp only [earlyChecks, hcap, Bool.not_false, Bool.and_self, if_true, List.mem_append]
    exact .inl (.inl (.inr hc))
  rcases hcases with ⟨_, _, rfl⟩ | ⟨_, _, rfl⟩
  · exact .inl ⟨rfl, rfl, rfl⟩
  · obtain ⟨lo, hi, heq⟩ := setschedulerChange_eq K p piTaskPrio policy resetOnFork attr pi
    by_cases hkeep : attr.has schedFlagKeepParams = true
    · rw [heq, if_pos hkeep]
      exact .inl ⟨rfl, rfl, rfl⟩
    · have hpolicy : attrPolicy p attr = policy := attrPolicy_of_requestedPolicy hreq
      have hpolicy' : attrPolicy { p with schedResetOnFork := resetOnFork } attr = policy := hpolicy
      rw [if_neg hkeep, __setschedulerParams_eq, hpolicy'] at heq
      rw [heq]
      exact .inr ⟨hgranted, rfl, rfl⟩

end Checks

/-! ## Members of the family -/

/-- The lowest static priority the family may have outside `SCHED_IDLE`: that of the
first task, or that of nice `20 - r`. A first task in `SCHED_IDLE` counts as nice 20. -/
def lowestStaticPrio (t₀ : TaskStruct) (r : ℕ) : ℤ :=
  if t₀.policy = .idle then 140 - r else min t₀.staticPrio (140 - r)

/-- The larger of the first task's weight and the weight of nice `20 - r`. -/
def weightBound (K : Kernel) (t₀ : TaskStruct) (r : ℕ) : ℕ :=
  max t₀.seLoad.weight (if r = 0 then 0 else K.scaleLoad (schedPrioToWeight (40 - r)))

/-- A fixed priority that gains nothing. A family that starts in `SCHED_IDLE` without
any `RLIMIT_NICE` never leaves it and may ask for anything. -/
def Permitted (t₀ : TaskStruct) (r : ℕ) (priority : ℤ) : Prop :=
  (t₀.policy = .idle ∧ r = 0) ∨ lowestStaticPrio t₀ r ≤ priority

/-- The first task: unprivileged, fair and coherent. -/
structure FirstTask (K : Kernel) (t₀ : TaskStruct) (r : ℕ) : Prop where
  fair : t₀.policy.InFairClass
  cap : t₀.cred.capSysNice = false
  rlimitNice : t₀.cred.rlimitNice = r
  rlimitRtprio : t₀.cred.rlimitRtprio = 0
  bound : r ≤ 40
  coherent : Coherent K t₀
  range : StaticPrioInRange t₀
  fixed : 101 ≤ t₀.myFixedPriority → t₀.myFixedPriority ≤ 139 →
    Permitted t₀ r t₀.myFixedPriority

structure Member (K : Kernel) (t₀ : TaskStruct) (r : ℕ) (t : TaskStruct) : Prop where
  fair : t.policy.InFairClass
  cred : t.cred = t₀.cred
  range : StaticPrioInRange t
  static : t.policy = .idle ∨ lowestStaticPrio t₀ r ≤ t.staticPrio
  fixed : 101 ≤ t.myFixedPriority → t.myFixedPriority ≤ 139 → Permitted t₀ r t.myFixedPriority
  weight : t.seLoad.weight ≤ weightBound K t₀ r

variable {K : Kernel} {t₀ : TaskStruct} {r : ℕ}

theorem lowestStaticPrio_le (t₀ : TaskStruct) (r : ℕ) : lowestStaticPrio t₀ r ≤ 140 - r := by
  unfold lowestStaticPrio
  split
  · exact le_refl _
  · exact min_le_right _ _

theorem FirstTask.weight_eq (h : FirstTask K t₀ r) :
    t₀.seLoad.weight = (loadFor K t₀.policy t₀.staticPrio).weight := by
  rw [(h.coherent h.fair).2]

theorem loadFor_idle (K : Kernel) (prio : ℤ) :
    (loadFor K .idle prio).weight = K.scaleLoad weightIdleprio := by
  simp [loadFor, idlePolicy]

theorem loadFor_of_ne_idle {policy : Policy} (h : policy ≠ .idle) (prio : ℤ) :
    (loadFor K policy prio).weight = K.scaleLoad (schedPrioToWeight (prio - maxRtPrio)) := by
  cases policy <;> simp_all [loadFor, idlePolicy]

theorem FirstTask.idle_le (h : FirstTask K t₀ r) :
    K.scaleLoad weightIdleprio ≤ weightBound K t₀ r := by
  refine le_trans ?_ (Nat.le_max_left _ _)
  rw [h.weight_eq]
  by_cases hidle : t₀.policy = .idle
  · rw [hidle, loadFor_idle]
  · rw [loadFor_of_ne_idle hidle]
    obtain ⟨hlo, hhi⟩ := h.range
    apply K.scaleLoad_mono
    apply weightIdleprio_le_schedPrioToWeight
    · simp only [maxRtPrio]
      omega
    · simp only [maxRtPrio]
      omega

theorem FirstTask.rlimit_le (h : FirstTask K t₀ r) (hr : r ≠ 0) {prio : ℤ}
    (hlo : 140 - r ≤ prio) (hhi : prio ≤ 139) :
    K.scaleLoad (schedPrioToWeight (prio - maxRtPrio)) ≤ weightBound K t₀ r := by
  refine le_trans ?_ (Nat.le_max_right _ _)
  rw [if_neg hr]
  have hr40 := h.bound
  apply K.scaleLoad_mono
  apply schedPrioToWeight_antitone
  · omega
  · simp only [maxRtPrio]
    omega
  · simp only [maxRtPrio]
    omega

theorem FirstTask.loadFor_le (h : FirstTask K t₀ r) {policy : Policy} {prio : ℤ}
    (hhi : prio ≤ 139) (hprio : policy = .idle ∨ lowestStaticPrio t₀ r ≤ prio) :
    (loadFor K policy prio).weight ≤ weightBound K t₀ r := by
  by_cases hidle : policy = .idle
  · rw [hidle, loadFor_idle]
    exact h.idle_le
  · have hlow : lowestStaticPrio t₀ r ≤ prio := hprio.resolve_left hidle
    rw [loadFor_of_ne_idle hidle]
    unfold lowestStaticPrio at hlow
    split at hlow
    · exact h.rlimit_le (by omega) hlow hhi
    · rename_i hstart
      by_cases hfirst : t₀.staticPrio ≤ prio
      · refine le_trans ?_ (Nat.le_max_left _ _)
        rw [h.weight_eq, loadFor_of_ne_idle hstart]
        obtain ⟨hlo, _⟩ := h.range
        apply K.scaleLoad_mono
        apply schedPrioToWeight_antitone
        · simp only [maxRtPrio]
          omega
        · omega
        · simp only [maxRtPrio]
          omega
      · exact h.rlimit_le (by omega) (by omega) hhi

theorem FirstTask.member (h : FirstTask K t₀ r) : Member K t₀ r t₀ where
  fair := h.fair
  cred := rfl
  range := h.range
  static := by
    by_cases hidle : t₀.policy = .idle
    · exact .inl hidle
    · right
      unfold lowestStaticPrio
      rw [if_neg hidle]
      exact min_le_left _ _
  fixed := h.fixed
  weight := Nat.le_max_left _ _

theorem Member.refresh (h₀ : FirstTask K t₀ r) {t t' : TaskStruct} (h : Member K t₀ r t)
    (hfair : t'.policy.InFairClass) (hcred : t'.cred = t.cred) (hrange : StaticPrioInRange t')
    (hstatic : t'.policy = .idle ∨ lowestStaticPrio t₀ r ≤ t'.staticPrio)
    (hfixed : t'.myFixedPriority = t.myFixedPriority)
    (hload : t'.seLoad = loadFor K t'.policy t'.staticPrio) : Member K t₀ r t' where
  fair := hfair
  cred := hcred.trans h.cred
  range := hrange
  static := hstatic
  fixed := by
    rw [hfixed]
    exact h.fixed
  weight := by
    rw [hload]
    exact h₀.loadFor_le hrange.2 hstatic

theorem lowest_le_of_rlimit {nice : ℤ} (h : niceToRlimit nice ≤ r) :
    lowestStaticPrio t₀ r ≤ niceToPrio nice := by
  refine le_trans (lowestStaticPrio_le t₀ r) ?_
  simp only [niceToRlimit, maxNice, niceToPrio] at *
  omega

theorem Member.setUserNice (h₀ : FirstTask K t₀ r) {t : TaskStruct} (h : Member K t₀ r t)
    {nice : ℤ} (hnice : nice < taskNice t → niceToRlimit nice ≤ r) :
    Member K t₀ r (setUserNice K t nice) := by
  have hrange := setUserNice_staticPrio_mem K h.range nice
  rcases setUserNice_cases K t nice with ⟨heq, _⟩ | ⟨_, hother, _⟩ | ⟨heq, _, _, _⟩
  · rw [heq]
    exact h
  · exact absurd h.fair hother
  · rw [heq] at hrange ⊢
    refine h.refresh h₀ h.fair rfl hrange ?_ rfl rfl
    by_cases hlt : nice < taskNice t
    · exact .inr (lowest_le_of_rlimit (hnice hlt))
    · refine h.static.imp id fun hlow ↦ hlow.trans ?_
      simp only [taskNice, prioToNice] at hlt
      simp only [niceToPrio]
      omega

theorem Member.setscheduler (h₀ : FirstTask K t₀ r) {env : SetschedEnv}
    {current t t' : TaskStruct} {isStop : Bool} {piTaskPrio : Option ℤ} {attr : SchedAttr}
    {pi : Bool} (h : Member K t₀ r t) (hcap : current.cred.capSysNice = false)
    (hok : __schedSetscheduler K env current t isStop piTaskPrio attr true pi = .ok t')
    (hrange : StaticPrioInRange t') : Member K t₀ r t' := by
  have heffect := __schedSetscheduler_effect K hok
  have hrtprio : t.cred.rlimitRtprio = 0 := by
    rw [h.cred]
    exact h₀.rlimitRtprio
  have hrlimit : t.cred.rlimitNice = r := by
    rw [h.cred]
    exact h₀.rlimitNice
  rcases __schedSetscheduler_granted K hcap hrtprio hok with
    ⟨hpolicy, hstatic, hload⟩ | ⟨hgranted, hload, hstatic⟩
  · refine ⟨hpolicy ▸ h.fair, heffect.cred.trans h.cred, hrange, ?_, ?_, ?_⟩
    · rw [hpolicy, hstatic]
      exact h.static
    · rw [heffect.myFixedPriority]
      exact h.fixed
    · rw [hload]
      exact h.weight
  · have hfair := hgranted.fair h.fair
    refine h.refresh h₀ hfair heffect.cred hrange ?_ heffect.myFixedPriority hload
    by_cases hidle : t'.policy = .idle
    · exact .inl hidle
    · right
      have hf : fairPolicy K t'.policy = true := by
        cases hpolicy : t'.policy <;> simp_all [fairPolicy, Policy.InFairClass]
      rw [hstatic, if_pos hf]
      by_cases hlt : attr.schedNice < taskNice t
      · exact lowest_le_of_rlimit (hrlimit ▸ hgranted.nice hf hlt)
      · -- the nice value did not go down, so the present one was open already
        have hnow : lowestStaticPrio t₀ r ≤ t.staticPrio := by
          rcases h.static with hwas | hlow
          · have hback : lowestStaticPrio t₀ r ≤ niceToPrio (taskNice t) :=
              lowest_le_of_rlimit (hrlimit ▸ hgranted.leaveIdle hwas hidle)
            simpa [taskNice] using hback
          · exact hlow
        refine hnow.trans ?_
        simp only [taskNice, prioToNice] at hlt
        simp only [niceToPrio]
        omega

theorem Member.applyFixedPriority {t : TaskStruct} (h : Member K t₀ r t) :
    Member K t₀ r (applyFixedPriority t) := by
  unfold Sched.applyFixedPriority
  split
  · rename_i hguard
    obtain ⟨_, hlo, hhi⟩ := hguard
    have hlo' : 100 ≤ t.myFixedPriority := by omega
    refine ⟨h.fair, h.cred, ⟨hlo', hhi⟩, ?_, h.fixed, h.weight⟩
    rcases h.static with hidle | hlow
    · exact .inl hidle
    · rcases h.fixed hlo hhi with ⟨hstart, hr⟩ | hpermitted
      · -- without a limit no member has left `SCHED_IDLE`
        have hmax := h.range.2
        simp only [lowestStaticPrio, hstart, hr, if_true] at hlow
        omega
      · exact .inr hpermitted
  · exact h

theorem Member.copyProcess (h₀ : FirstTask K t₀ r) {t child : TaskStruct} (h : Member K t₀ r t)
    (hok : copyProcess K t = .ok child) : Member K t₀ r child := by
  have hrange := copyProcess_staticPrio_mem K h.range hok
  cases hreset : t.schedResetOnFork with
  | false =>
      obtain ⟨hpolicy, hstatic, _, hload, hcred, hfixed, _⟩ :=
        copyProcess_of_not_reset K hreset hok
      refine ⟨hpolicy ▸ h.fair, hcred.trans h.cred, hrange, ?_, ?_, ?_⟩
      · rw [hpolicy, hstatic]
        exact h.static
      · rw [hfixed]
        exact h.fixed
      · rw [hload]
        exact h.weight
  | true =>
      obtain ⟨hbranch, _, _, hload, hcred, hfixed, _⟩ := copyProcess_of_reset K hreset hok
      rcases hbranch with ⟨hother, _⟩ | ⟨_, hpolicy, hstatic⟩
      · exact absurd h.fair hother
      · refine h.refresh h₀ (hpolicy ▸ h.fair) hcred hrange ?_ hfixed hload
        rw [hpolicy, hstatic]
        exact h.static.imp id fun hlow ↦ hlow.trans (le_max_left _ _)

/-! ## Runs -/

abbrev Family := Pid → Bool

def recordFork (s : State) (l : Label) (family : Family) : Family :=
  if enabled s l then
    match l with
    | .copyProcess cpu child => Function.update family child (family (s.curr cpu))
    | _ => family
  else family

/-- Nobody outside the family acts on it, and the kernel does not act on it by itself. -/
def Undisturbed (x : State × Family) : Label → Prop
  | .setUserNice p _ => x.2 p = false
  | .schedSetscheduler _ p _ _ _ _ => x.2 p = false
  | .sysSchedSetscheduler cpu p _ _ _ => x.2 p = true → x.2 (x.1.curr cpu) = true
  | .sysSchedSetparam cpu p _ _ => x.2 p = true → x.2 (x.1.curr cpu) = true
  | .sysSchedSetattr cpu p _ _ _ => x.2 p = true → x.2 (x.1.curr cpu) = true
  | _ => True

/-- The condition on a step: no member asks for a fixed priority below what the
permission checks would have granted. -/
def AsksPermitted (t₀ : TaskStruct) (r : ℕ) (x : State × Family) : Label → Prop
  | .mySetProcessPriority cpu priority =>
      x.2 (x.1.curr cpu) = true → 101 ≤ priority → priority ≤ 139 → Permitted t₀ r priority
  | _ => True

def FamilyMembers (K : Kernel) (t₀ : TaskStruct) (r : ℕ) (x : State × Family) : Prop :=
  ∀ p t, x.2 p = true → x.1.task p = some t → Member K t₀ r t

theorem Change.member (h₀ : FirstTask K t₀ r) {s : State} {family : Family} {l : Label}
    {p : Pid} {t t' : TaskStruct} (hfamily : FamilyMembers K t₀ r (s, family))
    (hundisturbed : Undisturbed (s, family) l) (hasks : AsksPermitted t₀ r (s, family) l)
    (hp : family p = true) (h : Member K t₀ r t) (hc : Change K .nextAfterPick s l p t t') :
    Member K t₀ r t' := by
  cases hc with
  | fixed _ hlo hhi =>
      exact ⟨h.fair, h.cred, h.range, h.static, fun _ _ ↦ hasks hp hlo hhi, h.weight⟩
  | assigned => exact h.applyFixedPriority
  | reniced nice =>
      have hother : family p = false := hundisturbed
      simp [hp] at hother
  | selfReniced hok =>
      obtain ⟨nice, rfl, _, _, hcan⟩ := sysNice_ok K hok
      refine h.setUserNice h₀ fun hlt ↦ ?_
      have hcap : t.cred.capSysNice = false := by
        rw [h.cred]
        exact h₀.cap
      have hallowed := niceToRlimit_le_of_canNice hcap (hcan hlt (taskNice_mem h.range).2)
      rwa [h.cred, h₀.rlimitNice] at hallowed
  | @attributed _ cpu _ _ _ current attr user pi env hcall hcur hok hfrom =>
      rcases hfrom with ⟨rfl, hnice⟩ | rfl
      · have hcaller : family (s.curr cpu) = true := by
          cases l <;> simp only [Label.attrCall, Option.some.injEq, Prod.mk.injEq, reduceCtorEq]
            at hcall <;> obtain ⟨rfl, rfl⟩ := hcall
          case schedSetscheduler =>
            have hother : family _ = false := hundisturbed
            simp [hp] at hother
          all_goals exact hundisturbed hp
        have hcap : current.cred.capSysNice = false := by
          rw [(hfamily _ current hcaller hcur).cred]
          exact h₀.cap
        exact h.setscheduler h₀ hcap hok (__schedSetscheduler_staticPrio_mem K h.range hnice hok)
      · have hother : family p = false := hundisturbed
        simp [hp] at hother
  | finished =>
      obtain ⟨lo, heq⟩ := copyProcessTail_frame K .nextAfterPick t
      rw [heq]
      have hreset : ¬ (101 : ℤ) ≤ 0 := by decide
      exact ⟨h.fair, h.cred, h.range, h.static, fun hlo _ ↦ absurd hlo hreset, h.weight⟩
  | boosted =>
      obtain ⟨prio, schedClass, top, heq⟩ := rtMutexSetprio_frame _ t _ _
      rw [heq]
      exact ⟨h.fair, h.cred, h.range, h.static, h.fixed, h.weight⟩

theorem recordFork_of_ne {s : State} {l : Label} {family : Family} {p : Pid}
    (h : ∀ cpu, l ≠ .copyProcess cpu p) : recordFork s l family p = family p := by
  unfold recordFork
  split
  · cases l with
    | copyProcess cpu child =>
        have hne : p ≠ child := by
          rintro rfl
          exact h cpu rfl
        simp [hne]
    | _ => rfl
  · rfl

theorem familyMembers_step (h₀ : FirstTask K t₀ r) {x : State × Family} {l : Label}
    (h : FamilyMembers K t₀ r x) (hundisturbed : Undisturbed x l)
    (hasks : AsksPermitted t₀ r x l) :
    FamilyMembers K t₀ r (instrument (step K .nextAfterPick) recordFork x l) := by
  obtain ⟨s, family⟩ := x
  intro p t' hp ht'
  rcases step_task_cases K .nextAfterPick s l p with
    hsame | ⟨t, u, _, ht, hu, hc⟩ | ⟨cpu, current, u, hen, rfl, _, hcur, hok, hu⟩
  · have hold : s.task p = some t' := hsame ▸ ht'
    have hcase : recordFork s l family p = family p ∨ enabled s l ≠ true := by
      by_cases hfork : ∃ cpu, l = .copyProcess cpu p
      · obtain ⟨cpu, rfl⟩ := hfork
        right
        simp [enabled, State.exists, hold]
      · exact .inl (recordFork_of_ne fun cpu heq ↦ hfork ⟨cpu, heq⟩)
    have hfam : recordFork s l family p = family p := by
      rcases hcase with hfam | hen
      · exact hfam
      · exact congrFun (if_neg hen) p
    exact h p t' (hfam.symm.trans hp) hold
  · obtain rfl : u = t' := Option.some.inj (hu.symm.trans ht')
    have hfam : recordFork s l family p = family p := by
      apply recordFork_of_ne
      rintro cpu rfl
      cases hc with
      | attributed _ _ _ _ _ hcall => simp [Label.attrCall] at hcall
    have hp' : family p = true := hfam.symm.trans hp
    exact hc.member h₀ h hundisturbed hasks hp' (h p t hp' ht)
  · obtain rfl : u = t' := Option.some.inj (hu.symm.trans ht')
    have hparent : family (s.curr cpu) = true := by
      simpa [recordFork, hen] using hp
    exact (h _ current hparent hcur).copyProcess h₀ hok

/-- In every run in which the family is left alone and asks for no fixed priority below
what it could have been granted, no member ever weighs more than the first task did
or than the lowest nice value of `RLIMIT_NICE` allows. -/
theorem family_weight_le (s : State) (first : Pid) (ls : List Label)
    (hfirst : s.task first = some t₀) (h₀ : FirstTask K t₀ r)
    (hundisturbed : Along (instrument (step K .nextAfterPick) recordFork) Undisturbed
      (s, fun p ↦ p = first) ls)
    (hasks : Along (instrument (step K .nextAfterPick) recordFork) (AsksPermitted t₀ r)
      (s, fun p ↦ p = first) ls) :
    AllStates (instrument (step K .nextAfterPick) recordFork)
      (fun x ↦ ∀ p t, x.2 p = true → x.1.task p = some t →
        t.seLoad.weight ≤ weightBound K t₀ r) (s, fun p ↦ p = first) ls := by
  have hstart : FamilyMembers K t₀ r (s, fun p ↦ p = first) := by
    intro p t hp ht
    obtain rfl : p = first := by simpa using hp
    obtain rfl : t₀ = t := Option.some.inj (hfirst.symm.trans ht)
    exact h₀.member
  have hall := allStates_of_along (fun x l hx hl ↦ familyMembers_step h₀ hx hl.1 hl.2) hstart
    (hundisturbed.and hasks)
  rw [allStates_iff_take] at hall ⊢
  exact fun k p t hp ht ↦ (hall k p t hp ht).weight

/-- Ask for a fixed priority, be selected, and change the policy to `SCHED_BATCH`. -/
def askAndSwitch (priority : ℤ) : List Label :=
  [.mySetProcessPriority 0 priority, .schedule 0 false false 0,
    .sysSchedSetscheduler 0 0 3 0 ⟨0, false, false, false⟩]

theorem soloMachine_firstTask : FirstTask .linux (normalTask .linux 0 .user) 0 where
  fair := by decide
  cap := rfl
  rlimitNice := rfl
  rlimitRtprio := rfl
  bound := by decide
  coherent := normalTask_coherent .linux 0 .user
  range := ⟨by decide, by decide⟩
  fixed hlo := absurd hlo (by decide)

theorem family_weight_le_solo :
    AllStates (instrument (step .linux .nextAfterPick) recordFork)
      (fun x ↦ ∀ p t, x.2 p = true → x.1.task p = some t →
        t.seLoad.weight ≤ weightBound .linux (normalTask .linux 0 .user) 0)
      (soloMachine, fun p ↦ p = 0) (askAndSwitch 130) :=
  family_weight_le soloMachine 0 (askAndSwitch 130) rfl soloMachine_firstTask
    ⟨trivial, trivial, fun h ↦ h, trivial⟩
    ⟨fun _ _ _ ↦ .inr (by decide), trivial, trivial, trivial⟩

/-- With no `RLIMIT_NICE` at all, a task with nice 0 reaches the weight of nice -19. -/
theorem askAndSwitch_gains_weight :
    FirstTask .linux (normalTask .linux 0 .user) 0 ∧
      Along (instrument (step .linux .nextAfterPick) recordFork) Undisturbed
        (soloMachine, fun p ↦ p = 0) (askAndSwitch 101) ∧
      ∃ t, (run (instrument (step .linux .nextAfterPick) recordFork)
          (soloMachine, fun p ↦ p = 0) (askAndSwitch 101)).1.task 0 = some t ∧
        weightBound .linux (normalTask .linux 0 .user) 0 < t.seLoad.weight :=
  ⟨soloMachine_firstTask, ⟨trivial, trivial, fun h ↦ h, trivial⟩, _, rfl, by decide⟩

end NcuKernel.Sched
