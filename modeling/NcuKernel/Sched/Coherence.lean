import NcuKernel.Sched.Lifecycle
import NcuKernel.Sched.Ranges

/-!
# Coherence of the scheduling fields

`normal_prio` and the load weight of a fair task are derived from `static_prio`.
Every writer of `static_prio` refreshes them except the assignment in
`__schedule`. The runs that keep the fields coherent are exactly those in which
this assignment never changes the value.
-/

set_option linter.style.nameCheck false

namespace NcuKernel.Sched

open Runs

variable (K : Kernel)

/-- The derived fields of a fair task belong to its static priority. -/
def Coherent (t : TaskStruct) : Prop :=
  t.policy.InFairClass →
    t.normalPrio = t.staticPrio ∧ t.seLoad = loadFor K t.policy t.staticPrio

def FieldsCoherent (s : State) : Prop := s.AllTasks fun _ t ↦ Coherent K t

theorem Refreshed.coherent {t : TaskStruct} (h : Refreshed K t) : Coherent K t := by
  intro hfair
  exact ⟨h.1.trans (normalPrio_of_inFairClass hfair), h.2⟩

theorem Coherent.congr {t t' : TaskStruct} (h : Coherent K t) (hpolicy : t'.policy = t.policy)
    (hstatic : t'.staticPrio = t.staticPrio) (hnormal : t'.normalPrio = t.normalPrio)
    (hload : t'.seLoad = t.seLoad) : Coherent K t' := by
  intro hfair
  rw [hpolicy] at hfair
  obtain ⟨hn, hl⟩ := h hfair
  exact ⟨by rw [hnormal, hn, hstatic], by rw [hload, hl, hpolicy, hstatic]⟩

theorem setUserNice_coherent {t : TaskStruct} (h : Coherent K t) (nice : ℤ) :
    Coherent K (setUserNice K t nice) := by
  rcases setUserNice_cases K t nice with ⟨heq, _⟩ | ⟨heq, hother, _⟩ | ⟨heq, _⟩
  · rw [heq]
    exact h
  · rw [heq]
    intro hfair
    exact absurd hfair hother
  · rw [heq]
    exact fun _ ↦ ⟨rfl, rfl⟩

theorem __schedSetscheduler_coherent {env : SetschedEnv} {current p q : TaskStruct}
    {isStop : Bool} {piTaskPrio : Option ℤ} {attr : SchedAttr} {user pi : Bool}
    (h : Coherent K p)
    (hok : __schedSetscheduler K env current p isStop piTaskPrio attr user pi = .ok q) :
    Coherent K q := by
  rcases (__schedSetscheduler_effect K hok).derived with ⟨hpol, hst, hn, hl⟩ | hfresh
  · exact h.congr K hpol hst hn hl
  · exact hfresh.coherent K

theorem copyProcess_coherent {current child : TaskStruct} (h : Coherent K current)
    (hok : copyProcess K current = .ok child) : Coherent K child := by
  cases hreset : current.schedResetOnFork with
  | false =>
      obtain ⟨hpol, hst, hn, hl, _⟩ := copyProcess_of_not_reset K hreset hok
      exact h.congr K hpol hst hn hl
  | true =>
      obtain ⟨_, _, hn, hl, _⟩ := copyProcess_of_reset K hreset hok
      exact fun _ ↦ ⟨hn, hl⟩

def AssignmentIdle (t : TaskStruct) : Prop :=
  t.policy.InFairClass → t.staticPrio ≠ 0 → 101 ≤ t.myFixedPriority →
    t.myFixedPriority ≤ 139 → t.myFixedPriority = t.staticPrio

theorem applyFixedPriority_coherent_iff {t : TaskStruct} (h : Coherent K t) :
    Coherent K (applyFixedPriority t) ↔ AssignmentIdle t := by
  constructor
  · intro hcoh hfair h0 hlo hhi
    rw [applyFixedPriority_of_mem h0 hlo hhi] at hcoh
    -- the assignment kept `normal_prio`, which was the old static priority
    exact (hcoh hfair).1.symm.trans (h hfair).1
  · intro hidle
    unfold applyFixedPriority
    split
    · rename_i hguard
      intro hfair
      obtain ⟨hn, hl⟩ := h hfair
      have heq := hidle hfair hguard.1 hguard.2.1 hguard.2.2
      exact ⟨hn.trans heq.symm, by simpa [heq] using hl⟩
    · exact h

/-- The condition on a step: `__schedule` does not pick a fair task that has a
fixed priority other than its static priority. -/
def AssignmentHarmless (s : State) : Label → Prop
  | .schedule cpu preempt signalPending next =>
      enabled s (.schedule cpu preempt signalPending next) = true →
        ∀ t, s.task next = some t → AssignmentIdle t
  | _ => True

/-- Every change but the assignment keeps a record coherent. -/
theorem Change.coherent {s : State} {l : Label} {p : Pid} {t t' : TaskStruct}
    (hc : Change K .nextAfterPick s l p t t') (h : Coherent K t) :
    Coherent K t' ∨
      ∃ cpu preempt signalPending, l = .schedule cpu preempt signalPending p ∧
        t' = applyFixedPriority t := by
  cases hc with
  | fixed => exact .inl h
  | @assigned cpu preempt signalPending next _ _ htarget =>
      obtain rfl : next = p := Option.some.inj htarget
      exact .inr ⟨cpu, preempt, signalPending, rfl, rfl⟩
  | reniced nice => exact .inl (setUserNice_coherent K h nice)
  | selfReniced hok =>
      obtain ⟨nice, rfl, _⟩ := sysNice_ok K hok
      exact .inl (setUserNice_coherent K h nice)
  | attributed current attr user pi env _ _ hok =>
      exact .inl (__schedSetscheduler_coherent K h hok)
  | finished =>
      obtain ⟨lo, heq⟩ := copyProcessTail_frame K .nextAfterPick t
      rw [heq]
      exact .inl (h.congr K rfl rfl rfl rfl)
  | boosted =>
      obtain ⟨prio, schedClass, top, heq⟩ := rtMutexSetprio_frame _ t _ _
      rw [heq]
      exact .inl (h.congr K rfl rfl rfl rfl)

theorem fieldsCoherent_step_iff {s : State} (h : FieldsCoherent K s) (l : Label) :
    FieldsCoherent K (step K .nextAfterPick s l) ↔ AssignmentHarmless s l := by
  constructor
  · intro hcoh
    cases l with
    | schedule cpu preempt signalPending next =>
        intro hen t ht
        have hafter := hcoh next _ (step_schedule_next K hen ht)
        exact (applyFixedPriority_coherent_iff K (h next t ht)).mp hafter
    | _ => trivial
  · intro hok p t' ht'
    rcases step_task_cases K .nextAfterPick s l p with
      hsame | ⟨t, u, hen, ht, hu, hc⟩ | ⟨cpu, current, u, _, rfl, _, hcur, hfork, hu⟩
    · exact h p t' (hsame ▸ ht')
    · obtain rfl : u = t' := Option.some.inj (hu.symm.trans ht')
      rcases hc.coherent K (h p t ht) with hcoh | ⟨cpu, preempt, signalPending, rfl, rfl⟩
      · exact hcoh
      · exact (applyFixedPriority_coherent_iff K (h p t ht)).mpr (hok hen t ht)
    · obtain rfl : u = t' := Option.some.inj (hu.symm.trans ht')
      exact copyProcess_coherent K (h _ current hcur) hfork

/-! ## Runs -/

/-- A fair task that `__schedule` selects with a fixed priority has the weight of
that priority afterwards. -/
def SwitchedInWeight (s : State) : Label → Prop
  | .schedule cpu preempt signalPending next =>
      enabled s (.schedule cpu preempt signalPending next) = true →
        ∀ t, (step K .nextAfterPick s (.schedule cpu preempt signalPending next)).task next =
            some t →
          t.policy.InFairClass → 101 ≤ t.myFixedPriority → t.myFixedPriority ≤ 139 →
            t.seLoad = loadFor K t.policy t.myFixedPriority
  | _ => True

theorem applyFixedPriority_load {t : TaskStruct} (h : Coherent K t) (hrange : StaticPrioInRange t)
    (hidle : AssignmentIdle t) (hfair : t.policy.InFairClass)
    (hlo : 101 ≤ t.myFixedPriority) (hhi : t.myFixedPriority ≤ 139) :
    t.seLoad = loadFor K t.policy t.myFixedPriority := by
  have h0 : t.staticPrio ≠ 0 := by
    have := hrange.1
    omega
  rw [hidle hfair h0 hlo hhi]
  exact (h hfair).2

theorem switchedInWeight_of_harmless {s : State} {l : Label} (h : FieldsCoherent K s)
    (hrange : s.AllTasks fun _ t ↦ StaticPrioInRange t) (hok : AssignmentHarmless s l) :
    SwitchedInWeight K s l := by
  cases l with
  | schedule cpu preempt signalPending next =>
      intro hen t' ht' hfair hlo hhi
      obtain ⟨t, ht⟩ := enabled_schedule hen
      obtain rfl : applyFixedPriority t = t' :=
        Option.some.inj ((step_schedule_next K hen ht).symm.trans ht')
      rw [applyFixedPriority_eq] at hfair hlo hhi ⊢
      have hload : t.seLoad = loadFor K t.policy t.myFixedPriority :=
        applyFixedPriority_load K (h next t ht) (hrange next t ht) (hok hen t ht) hfair hlo hhi
      exact hload
  | _ => trivial

/-- The derived fields stay coherent, and every switched-in task has the weight of
its fixed priority, in exactly the runs whose assignments are all harmless. -/
theorem fieldsCoherent_run_iff (s : State) (ls : List Label) (hcoh : FieldsCoherent K s)
    (hrange : s.AllTasks fun _ t ↦ StaticPrioInRange t)
    (hchecked : Along (step K .nextAfterPick) (fun s l ↦ l.NiceChecked s) s ls) :
    (AllStates (step K .nextAfterPick) (FieldsCoherent K) s ls ∧
        Along (step K .nextAfterPick) (SwitchedInWeight K) s ls) ↔
      Along (step K .nextAfterPick) AssignmentHarmless s ls := by
  have hiff : AllStates (step K .nextAfterPick) (FieldsCoherent K) s ls ↔
      Along (step K .nextAfterPick) AssignmentHarmless s ls :=
    allStates_iff_along hcoh fun s l _ hs ↦ fieldsCoherent_step_iff K hs l
  constructor
  · rintro ⟨hall, _⟩
    exact hiff.mp hall
  · intro hok
    refine ⟨hiff.mpr hok, ?_⟩
    -- coherence and the range of `static_prio` are carried together
    refine along_of_invariant
      (P := fun s ↦ FieldsCoherent K s ∧ s.AllTasks fun _ t ↦ StaticPrioInRange t)
      (fun s l hs hl ↦ ?_) (fun s l hs hl ↦ ?_) ⟨hcoh, hrange⟩ (hok.and hchecked)
    · exact ⟨(fieldsCoherent_step_iff K hs.1 l).mpr hl.1, staticPrio_mem_step K _ hs.2 hl.2⟩
    · exact switchedInWeight_of_harmless K hs.1 hs.2 hl.1

theorem normalTask_coherent (nice : ℤ) (cred : Cred) : Coherent K (normalTask K nice cred) :=
  fun _ ↦ ⟨rfl, rfl⟩

def soloMachine : State := .ofTasks [normalTask .linux 0 .user]

theorem soloMachine_coherent : FieldsCoherent .linux soloMachine :=
  State.allTasks_ofTasks fun t ht _ ↦ by
    rw [List.mem_singleton.mp ht]
    exact normalTask_coherent .linux 0 .user

theorem soloMachine_inRange : soloMachine.AllTasks fun _ t ↦ StaticPrioInRange t :=
  State.allTasks_ofTasks fun t ht _ ↦ by
    rw [List.mem_singleton.mp ht]
    exact ⟨by decide, by decide⟩

theorem fieldsCoherent_run_iff_solo :
    (AllStates (step .linux .nextAfterPick) (FieldsCoherent .linux) soloMachine
          [.mySetProcessPriority 0 120, .schedule 0 false false 0] ∧
        Along (step .linux .nextAfterPick) (SwitchedInWeight .linux) soloMachine
          [.mySetProcessPriority 0 120, .schedule 0 false false 0]) ↔
      Along (step .linux .nextAfterPick) AssignmentHarmless soloMachine
        [.mySetProcessPriority 0 120, .schedule 0 false false 0] :=
  fieldsCoherent_run_iff .linux soloMachine _ soloMachine_coherent soloMachine_inRange
    (by simp [Label.NiceChecked])

def promoted : TaskStruct :=
  { normalTask .linux 0 .user with myFixedPriority := 101, staticPrio := 101 }

theorem soloMachine_promoted :
    (run (step .linux .nextAfterPick) soloMachine
      [.mySetProcessPriority 0 101, .schedule 0 false false 0]).task 0 = some promoted := rfl

theorem promoted_not_coherent : ¬ Coherent .linux promoted := by
  intro h
  exact absurd (h (by decide)).1 (by decide)

/-- A task that asks for priority 101 is left with the normal priority and the
weight of nice 0. -/
theorem soloMachine_loses_coherence :
    FieldsCoherent .linux soloMachine ∧
      ¬ FieldsCoherent .linux (run (step .linux .nextAfterPick) soloMachine
        [.mySetProcessPriority 0 101, .schedule 0 false false 0]) ∧
      promoted.seLoad ≠ loadFor .linux promoted.policy promoted.myFixedPriority :=
  ⟨soloMachine_coherent, fun h ↦ promoted_not_coherent (h 0 _ soloMachine_promoted), by decide⟩

/-! ## The shortcuts for requests that change nothing -/

def NiceApplied (policy : Policy) (n : ℤ) (t : TaskStruct) : Prop :=
  t.policy = policy ∧ t.staticPrio = niceToPrio n ∧ t.normalPrio = niceToPrio n ∧
    t.seLoad = loadFor K policy (niceToPrio n)

/-- `attr` asks for the policy the task has and for the nice value `n`. -/
structure OwnPolicyRequest (t : TaskStruct) (attr : SchedAttr) (n : ℤ) : Prop where
  policy : (requestedPolicy t attr).map Prod.fst = some t.policy
  nice : attr.schedNice = n
  params : attr.has schedFlagKeepParams = false

theorem taskNice_eq_iff (t : TaskStruct) (n : ℤ) :
    taskNice t = n ↔ t.staticPrio = niceToPrio n := by
  simp only [taskNice, prioToNice, niceToPrio]
  omega

/-- A record that an early exit leaves alone has the nice value applied exactly if
it was coherent. -/
theorem niceApplied_iff_coherent {t : TaskStruct} {n : ℤ} (hfair : t.policy.InFairClass)
    (hnice : taskNice t = n) : NiceApplied K t.policy n t ↔ Coherent K t := by
  have hstatic := (taskNice_eq_iff t n).mp hnice
  unfold NiceApplied Coherent
  rw [← hstatic]
  simp [hfair]

theorem setUserNice_niceApplied_iff {t : TaskStruct} {n : ℤ} (hfair : t.policy.InFairClass)
    (hlo : minNice ≤ n) (hhi : n ≤ maxNice) :
    NiceApplied K t.policy n (setUserNice K t n) ↔ (taskNice t = n → Coherent K t) := by
  by_cases hnice : taskNice t = n
  · have hsame : setUserNice K t n = t := by simp [setUserNice, hnice]
    rw [hsame, niceApplied_iff_coherent K hfair hnice]
    simp [hnice]
  · rw [setUserNice_of_inFairClass K hfair hnice hlo hhi]
    simp [NiceApplied, hnice]

/-- For a fair policy the request is not empty if it names another nice value, where
`fair_policy` looks at nice values at all, or a clamp. -/
theorem changeRequested_of_inFairClass {t : TaskStruct} (attr : SchedAttr)
    (hfair : t.policy.InFairClass) :
    changeRequested K t t.policy attr =
      ((fairPolicy K t.policy && attr.schedNice ≠ taskNice t) || attr.has schedFlagUtilClamp) := by
  obtain ⟨hdl, hrt⟩ := t.policy.inFairClass_iff.mp hfair
  simp [changeRequested, hdl, hrt]

theorem setschedulerChange_ownPolicy {t : TaskStruct} {attr : SchedAttr} {resetOnFork : Bool}
    (hreq : requestedPolicy t attr = some (t.policy, resetOnFork))
    (hparams : attr.has schedFlagKeepParams = false) (piTaskPrio : Option ℤ) (pi : Bool) :
    let q := setschedulerChange K t piTaskPrio t.policy resetOnFork attr pi
    q.policy = t.policy ∧ Refreshed K q ∧
      q.staticPrio = if fairPolicy K t.policy then niceToPrio attr.schedNice
        else t.staticPrio := by
  obtain ⟨lo, hi, heq⟩ := setschedulerChange_eq K t piTaskPrio t.policy resetOnFork attr pi
  have hown : attrPolicy t attr = t.policy := attrPolicy_of_requestedPolicy hreq
  -- the policy asked for does not depend on the reset flag
  have hpolicy : attrPolicy { t with schedResetOnFork := resetOnFork } attr = t.policy := hown
  rw [if_neg (by simp [hparams]), __setschedulerParams_eq, hpolicy] at heq
  simp only [heq]
  exact ⟨rfl, ⟨rfl, rfl⟩, rfl⟩

/-- The static priority a request for the own policy and nice value `n` leaves:
`__setscheduler_params` stores the nice value only where `fair_policy` says so. -/
def requestedStaticPrio (t : TaskStruct) (n : ℤ) : ℤ :=
  if fairPolicy K t.policy then niceToPrio n else t.staticPrio

/-- On a coherent record the request gives the same fields through the shortcut and
through the full path. -/
theorem __schedSetscheduler_ownPolicy {env : SetschedEnv} {current t q : TaskStruct}
    {isStop : Bool} {piTaskPrio : Option ℤ} {attr : SchedAttr} {user pi : Bool} {n : ℤ}
    (hfair : t.policy.InFairClass) (hcoh : Coherent K t) (hown : OwnPolicyRequest t attr n)
    (hok : __schedSetscheduler K env current t isStop piTaskPrio attr user pi = .ok q) :
    q.policy = t.policy ∧ q.staticPrio = requestedStaticPrio K t n ∧
      q.normalPrio = q.staticPrio ∧ q.seLoad = loadFor K t.policy q.staticPrio := by
  obtain ⟨hpol, rfl, hparams⟩ := hown
  obtain ⟨policy, resetOnFork, hreq, _, hcases⟩ := __schedSetscheduler_ok K hok
  obtain rfl : policy = t.policy := by simpa [hreq] using hpol
  rcases hcases with ⟨_, hnothing, rfl⟩ | ⟨_, _, rfl⟩
  · obtain ⟨hn, hl⟩ := hcoh hfair
    rw [changeRequested_of_inFairClass K attr hfair] at hnothing
    refine ⟨rfl, ?_, hn, hl⟩
    -- where the nice value is compared at all, it agreed
    unfold requestedStaticPrio
    split
    · rename_i hf
      have hnice : attr.schedNice = taskNice t := by
        by_contra hne
        simp [hf, hne] at hnothing
      exact (taskNice_eq_iff t _).mp hnice.symm
    · rfl
  · obtain ⟨hqpol, hfresh, hstatic⟩ :=
      setschedulerChange_ownPolicy K hreq hparams piTaskPrio pi
    obtain ⟨hn, hl⟩ := hfresh.coherent K (by rw [hqpol]; exact hfair)
    exact ⟨hqpol, hstatic, hn, hl.trans (congrArg (loadFor K · _) hqpol)⟩

/-- In every state of every run the shortcuts give a coherent fair task the fields
of the full update, and all tasks are coherent in the runs whose assignments are
harmless. -/
theorem shortcuts_agree (s : State) (ls : List Label) (hcoh : FieldsCoherent K s) :
    AllStates (step K .nextAfterPick) (fun s ↦ ∀ p t n, s.task p = some t →
        t.policy.InFairClass → Coherent K t → minNice ≤ n → n ≤ maxNice →
          NiceApplied K t.policy n (setUserNice K t n) ∧
          ∀ env current isStop piTaskPrio attr user pi q, OwnPolicyRequest t attr n →
            __schedSetscheduler K env current t isStop piTaskPrio attr user pi = .ok q →
              q.policy = t.policy ∧ q.staticPrio = requestedStaticPrio K t n ∧
                q.normalPrio = q.staticPrio ∧ q.seLoad = loadFor K t.policy q.staticPrio) s ls ∧
      (Along (step K .nextAfterPick) AssignmentHarmless s ls →
        AllStates (step K .nextAfterPick) (FieldsCoherent K) s ls) := by
  constructor
  · rw [allStates_iff_take]
    intro k p t n _ hfair ht hlo hhi
    refine ⟨(setUserNice_niceApplied_iff K hfair hlo hhi).mpr fun _ ↦ ht, ?_⟩
    intro env current isStop piTaskPrio attr user pi q hown hok
    exact __schedSetscheduler_ownPolicy K hfair ht hown hok
  · exact allStates_of_along (fun s l hs hl ↦ (fieldsCoherent_step_iff K hs l).mpr hl) hcoh

def keepRun : List Label := [.mySetProcessPriority 0 120, .schedule 0 false false 0]

/-- The task of `soloMachine` after `keepRun`. -/
def keeper : TaskStruct := { normalTask .linux 0 .user with myFixedPriority := 120 }

def ownNice (nice : ℤ) : SchedAttr := ⟨0, 0, nice, 0, 0, 0, 0, 0, 0⟩

/-- Nice 0 takes the early exits and nice 5 the full paths. -/
theorem shortcuts_agree_solo :
    AllStates (step .linux .nextAfterPick) (FieldsCoherent .linux) soloMachine keepRun ∧
      (run (step .linux .nextAfterPick) soloMachine keepRun).task 0 = some keeper ∧
      setUserNice .linux keeper 0 = keeper ∧ NiceApplied .linux .normal 0 keeper ∧
      NiceApplied .linux .normal 5 (setUserNice .linux keeper 5) ∧
      (∃ q, __schedSetscheduler .linux ⟨0, false, false, false⟩ keeper keeper false none
        (ownNice 0) true true = .ok q ∧ q = keeper ∧ q.staticPrio = 120) ∧
      ∃ q, __schedSetscheduler .linux ⟨0, false, false, false⟩ keeper keeper false none
        (ownNice 5) true true = .ok q ∧ q.staticPrio = 125 ∧ q.normalPrio = 125 ∧
        q.seLoad = loadFor .linux .normal 125 := by
  obtain ⟨hagree, hcoh⟩ := shortcuts_agree .linux soloMachine keepRun soloMachine_coherent
  have hharmless : Along (step .linux .nextAfterPick) AssignmentHarmless soloMachine keepRun := by
    refine ⟨trivial, ?_, trivial⟩
    intro _ t ht _ _ _ _
    obtain rfl : keeper = t := Option.some.inj ht
    rfl
  have hend : (run (step .linux .nextAfterPick) soloMachine keepRun).task 0 = some keeper := rfl
  have happlies := fun n ↦ allStates_iff_take.mp hagree 2 0 keeper n hend (by decide)
    (fun _ ↦ ⟨rfl, rfl⟩)
  have hsame : setUserNice .linux keeper 0 = keeper := by decide
  obtain ⟨hzero, hown⟩ := happlies 0 (by decide) (by decide)
  obtain ⟨hfive, hother⟩ := happlies 5 (by decide) (by decide)
  have hexit : __schedSetscheduler .linux ⟨0, false, false, false⟩ keeper keeper false none
      (ownNice 0) true true = .ok keeper := by decide
  refine ⟨hcoh hharmless, hend, hsame, hsame ▸ hzero, hfive, ⟨keeper, hexit, rfl, ?_⟩, ?_⟩
  · exact (hown _ _ _ _ _ _ _ keeper ⟨by decide, rfl, by decide⟩ hexit).2.1
  · obtain ⟨q, hq⟩ : ∃ q, __schedSetscheduler .linux ⟨0, false, false, false⟩ keeper keeper false
        none (ownNice 5) true true = .ok q := ⟨_, rfl⟩
    obtain ⟨-, hstatic, hnormal, hload⟩ :=
      hother _ _ _ _ _ _ _ q ⟨by decide, rfl, by decide⟩ hq
    have hvalue : q.staticPrio = 125 := hstatic
    exact ⟨q, hq, hvalue, hnormal.trans hvalue, hvalue ▸ hload⟩

def idleTask : TaskStruct :=
  { normalTask .linux 0 .user with policy := .idle, seLoad := loadFor .linux .idle 120 }

def idleRequest : SchedAttr := ⟨5, 0, 5, 0, 0, 0, 0, 0, 0⟩

/-- A request for nice 5 on an idle task succeeds and does not store the value. -/
theorem idleTask_keeps_nice :
    FieldsCoherent .linux (.ofTasks [idleTask]) ∧
      (State.ofTasks [idleTask]).task 0 = some idleTask ∧
      OwnPolicyRequest idleTask idleRequest 5 ∧
      __schedSetscheduler .linux ⟨0, false, false, false⟩ idleTask idleTask false none
        idleRequest true true = .ok idleTask ∧
      ¬ NiceApplied .linux .idle 5 idleTask := by
  refine ⟨State.allTasks_ofTasks fun t ht _ ↦ ?_, rfl, ⟨by decide, rfl, by decide⟩, by decide, ?_⟩
  · rw [List.mem_singleton.mp ht]
    exact fun _ ↦ ⟨rfl, rfl⟩
  · exact fun h ↦ absurd h.2.1 (by decide)

end NcuKernel.Sched
