import NcuKernel.Sched.Coherence

/-!
# What the argument of the call can influence

Two runs with the same steps, in which only the arguments of
`my_set_process_priority` differ. Calls, selections, forks of parents without
`sched_reset_on_fork` and boosts never recompute anything from `static_prio`, so the
runs agree in everything but `static_prio` and `my_fixed_priority`.
-/

namespace NcuKernel.Sched

open Runs

variable (K : Kernel)

/-- The record without the two fields that may differ. -/
def TaskStruct.blind (t : TaskStruct) : TaskStruct :=
  { t with staticPrio := 0, myFixedPriority := 0 }

def State.blind (s : State) : State := { s with task := fun p ↦ (s.task p).map TaskStruct.blind }

@[simp] theorem State.blind_task (s : State) (p : Pid) :
    s.blind.task p = (s.task p).map TaskStruct.blind := rfl

@[simp] theorem State.blind_life (s : State) : s.blind.life = s.life := rfl

@[simp] theorem State.blind_curr (s : State) : s.blind.curr = s.curr := rfl

@[simp] theorem State.blind_clone (s : State) : s.blind.clone = s.clone := rfl

theorem map_map_blind {α : Type*} (o : Option TaskStruct) (f : TaskStruct → α)
    (h : ∀ t : TaskStruct, f t.blind = f t) : (o.map TaskStruct.blind).map f = o.map f := by
  cases o with
  | none => rfl
  | some t => exact congrArg some (h t)

theorem State.blind_blind (s : State) : s.blind.blind = s.blind := by
  unfold State.blind
  congr 1
  funext p
  exact map_map_blind (s.task p) TaskStruct.blind fun _ ↦ rfl

theorem State.exists_blind (s : State) (p : Pid) : s.blind.exists p = s.exists p := by
  simp [State.exists, State.blind]

theorem enabled_blind (s : State) (l : Label) : enabled s.blind l = enabled s l := by
  have hall : ∀ q : Option Pid, q.all s.blind.exists = q.all s.exists := by
    intro q
    cases q with
    | none => rfl
    | some q => exact s.exists_blind q
  cases l <;> simp only [enabled, State.pickable, State.exists_blind, State.blind_curr,
    State.blind_life, State.blind_clone, hall] <;> rfl

/-! ## The functions -/

theorem applyFixedPriority_blind (t : TaskStruct) : (applyFixedPriority t).blind = t.blind := by
  rw [applyFixedPriority_eq]
  rfl

theorem rtMutexSetprio_blind (isIdle : Bool) (t : TaskStruct) (piTask : Option Pid)
    (piTaskPrio : Option ℤ) :
    (rtMutexSetprio isIdle t piTask piTaskPrio).blind =
      rtMutexSetprio isIdle t.blind piTask piTaskPrio := by
  dsimp only [rtMutexSetprio, TaskStruct.blind]
  split_ifs <;> rfl

theorem uclampPostFork_blind (t : TaskStruct) :
    (uclampPostFork K t).blind = uclampPostFork K t.blind := by
  by_cases hrt : (K.configUclampTask && rtTask t && !t.uclampMin.userDefined) = true
  · have hblind : (K.configUclampTask && rtTask t.blind && !t.blind.uclampMin.userDefined) = true :=
      hrt
    rw [uclampPostFork, if_pos hrt, uclampPostFork, if_pos hblind]
    rfl
  · have hblind : ¬(K.configUclampTask && rtTask t.blind &&
        !t.blind.uclampMin.userDefined) = true := hrt
    rw [uclampPostFork, if_neg hrt, uclampPostFork, if_neg hblind]

theorem copyProcessTail_blind (t : TaskStruct) :
    (copyProcessTail K .nextAfterPick t).blind = copyProcessTail K .nextAfterPick t.blind := by
  have hleft : (copyProcessTail K .nextAfterPick t).blind = (uclampPostFork K t).blind := rfl
  have hright : copyProcessTail K .nextAfterPick t.blind =
      { uclampPostFork K t.blind with myFixedPriority := 0 } := rfl
  rw [hleft, hright, ← uclampPostFork_blind]
  rfl

/-- Without `sched_reset_on_fork` a fork copies the two fields and reads neither. -/
theorem copyProcess_blind {t : TaskStruct} (hreset : t.schedResetOnFork = false) :
    (copyProcess K t).toOption.map TaskStruct.blind =
      (copyProcess K t.blind).toOption := by
  have hplain : ∀ u : TaskStruct, u.schedResetOnFork = false → copyProcess K u =
      setForkClass { u with
        piTopTask := none, dl := K.dlClearParams u.dl, prio := u.normalPrio } := by
    intro u hu
    simp [copyProcess, schedFork, uclampFork, __schedFork, rtMutexInitTask, dupTaskStruct, hu]
  rw [hplain t hreset, hplain t.blind hreset]
  dsimp only [setForkClass, TaskStruct.blind]
  split_ifs <;> rfl

/-! ## One step -/

/-- The steps considered; a fork needs a parent without `sched_reset_on_fork`. -/
def Plain (s : State) : Label → Prop
  | .mySetProcessPriority _ _ => True
  | .schedule _ _ _ _ => True
  | .copyProcess cpu _ => ∀ t, s.task (s.curr cpu) = some t → t.schedResetOnFork = false
  | .copyProcessTail _ => True
  | .wakeUpNewTask _ => True
  | .rtMutexSetprio _ _ => True
  | .setCurrentState _ _ => True
  | .tryToWakeUp _ => True
  | _ => False

def blindWrite (w : Option (Pid × TaskStruct)) : Option (Pid × TaskStruct) :=
  w.map fun x ↦ (x.1, x.2.blind)

theorem State.store_blind (s : State) (w : Option (Pid × TaskStruct)) :
    (fun p ↦ (s.store w p).map TaskStruct.blind) = s.blind.store (blindWrite w) := by
  funext p
  cases w with
  | none => rfl
  | some x =>
      obtain ⟨q, t⟩ := x
      by_cases hp : p = q
      · subst hp
        rw [s.store_self, blindWrite]
        exact (s.blind.store_self p t.blind).symm
      · rw [s.store_ne t hp, blindWrite]
        exact (s.blind.store_ne t.blind hp).symm

theorem taskWrite_blind {s : State} {l : Label} (hplain : Plain s l) :
    blindWrite (taskWrite K .nextAfterPick s l) =
      blindWrite (taskWrite K .nextAfterPick s.blind l) := by
  cases l with
  | mySetProcessPriority cpu priority =>
      cases hcur : s.task (s.curr cpu) with
      | none => simp [taskWrite, State.change, hcur]
      | some t =>
          by_cases hout : priority < 101 ∨ 139 < priority
          · simp [taskWrite, State.change, hcur, mySetProcessPriority, hout]
          · simp [taskWrite, State.change, hcur, mySetProcessPriority, hout, blindWrite,
              TaskStruct.blind]
  | schedule cpu preempt signalPending next =>
      cases ht : s.task next with
      | none => simp [taskWrite, Patch.target, ht]
      | some t =>
          simp [taskWrite, Patch.target, ht, blindWrite, applyFixedPriority_blind]
          rfl
  | copyProcess cpu child =>
      cases hcur : s.task (s.curr cpu) with
      | none => simp [taskWrite, hcur]
      | some t =>
          have hfork := copyProcess_blind K (hplain t hcur)
          simp only [taskWrite, hcur, State.blind_task, State.blind_curr, Option.map_some,
            Option.bind_some, ← hfork, blindWrite, Option.map_map]
          rfl
  | copyProcessTail child =>
      cases ht : s.task child with
      | none => simp [taskWrite, ht]
      | some t =>
          simp only [taskWrite, ht, State.blind_task, Option.map_some, blindWrite,
            copyProcessTail_blind]
          rfl
  | rtMutexSetprio p piTask =>
      have hdonor : ((piTask.bind s.blind.task).map TaskStruct.prio) =
          ((piTask.bind s.task).map TaskStruct.prio) := by
        cases piTask with
        | none => rfl
        | some q => exact map_map_blind (s.task q) TaskStruct.prio fun _ ↦ rfl
      cases ht : s.task p with
      | none => simp [taskWrite, ht]
      | some t =>
          simp only [taskWrite, ht, State.blind_task, Option.map_some, blindWrite, hdonor,
            ← rtMutexSetprio_blind]
          rfl
  | wakeUpNewTask child => rfl
  | setCurrentState cpu state => rfl
  | tryToWakeUp p => rfl
  | _ => exact absurd hplain id

theorem step_blind {s : State} {l : Label} (hplain : Plain s l) :
    (step K .nextAfterPick s l).blind = (step K .nextAfterPick s.blind l).blind := by
  by_cases hen : enabled s l = true
  · have hen' : enabled s.blind l = true := (enabled_blind s l).trans hen
    have hwrite := taskWrite_blind K hplain
    have hforked : (taskWrite K .nextAfterPick s l).isSome =
        (taskWrite K .nextAfterPick s.blind l).isSome := by
      simpa [blindWrite] using congrArg Option.isSome hwrite
    have htask : (fun p ↦ (s.store (taskWrite K .nextAfterPick s l) p).map TaskStruct.blind) =
        fun p ↦ (s.blind.store (taskWrite K .nextAfterPick s.blind l) p).map
          TaskStruct.blind := by
      rw [State.store_blind, State.store_blind, hwrite, s.blind_blind]
    rw [step_of_enabled K _ hen, step_of_enabled K _ hen', hforked]
    unfold State.blind
    simp only [State.mk.injEq]
    refine ⟨htask, ?_, ?_, ?_⟩ <;> cases l <;> rfl
  · have hen' : enabled s.blind l ≠ true := by
      rw [enabled_blind]
      exact hen
    rw [step_of_not_enabled K _ hen, step_of_not_enabled K _ hen']
    exact s.blind_blind.symm

theorem step_argument_blind (s : State) {cpu : Cpu} {x y : ℤ} (hx : 101 ≤ x ∧ x ≤ 139)
    (hy : 101 ≤ y ∧ y ≤ 139) :
    (step K .nextAfterPick s (.mySetProcessPriority cpu x)).blind =
      (step K .nextAfterPick s (.mySetProcessPriority cpu y)).blind := by
  by_cases hen : enabled s (.mySetProcessPriority cpu x) = true
  · obtain ⟨t, ht⟩ : ∃ t, s.task (s.curr cpu) = some t := Option.isSome_iff_exists.mp hen
    have hwrite : ∀ z : ℤ, 101 ≤ z ∧ z ≤ 139 →
        taskWrite K .nextAfterPick s (.mySetProcessPriority cpu z) =
          some (s.curr cpu, { t with myFixedPriority := z }) := by
      intro z hz
      rw [taskWrite_mySetProcessPriority K _ (by simp) ht, mySetProcessPriority_of_mem t hz.1 hz.2]
      rfl
    have hstored : (fun p ↦ (s.store (some (s.curr cpu, { t with myFixedPriority := x })) p).map
          TaskStruct.blind) =
        fun p ↦ (s.store (some (s.curr cpu, { t with myFixedPriority := y })) p).map
          TaskStruct.blind := by
      rw [State.store_blind, State.store_blind]
      rfl
    have hen' : enabled s (.mySetProcessPriority cpu y) = true := hen
    rw [step_of_enabled K _ hen, step_of_enabled K _ hen', hwrite x hx, hwrite y hy]
    unfold State.blind
    simp only [State.mk.injEq]
    exact ⟨hstored, rfl, rfl, rfl⟩
  · have hen' : enabled s (.mySetProcessPriority cpu y) ≠ true := hen
    rw [step_of_not_enabled K _ hen, step_of_not_enabled K _ hen']

/-! ## Two runs -/

/-- The same step, or the call with two valid arguments. -/
inductive SameButArgument : Label → Label → Prop where
  | same (l : Label) : SameButArgument l l
  | call (cpu : Cpu) {x y : ℤ} (hx : 101 ≤ x ∧ x ≤ 139) (hy : 101 ≤ y ∧ y ≤ 139) :
      SameButArgument (.mySetProcessPriority cpu x) (.mySetProcessPriority cpu y)

theorem Plain.congr {s s' : State} {l m : Label} (hblind : s.blind = s'.blind)
    (hlm : SameButArgument l m) (h : Plain s l) : Plain s' m := by
  cases hlm with
  | call => trivial
  | same =>
      cases l with
      | copyProcess cpu child =>
          intro t ht
          have hcurr : s.blind.curr = s'.blind.curr := by rw [hblind]
          have htask := congrFun (congrArg State.task hblind) (s'.curr cpu)
          simp only [State.blind_task, ht, Option.map_some] at htask
          obtain ⟨u, hu, hut⟩ := Option.map_eq_some_iff.mp htask
          have hcur : s.task (s.curr cpu) = some u := by
            rw [← hu]
            exact congrArg s.task (congrFun hcurr cpu)
          have hreset := h u hcur
          exact (congrArg TaskStruct.schedResetOnFork hut).symm.trans hreset
      | _ => exact h

theorem step_related {s s' : State} {l m : Label} (hblind : s.blind = s'.blind)
    (hlm : SameButArgument l m) (hplain : Plain s l) :
    (step K .nextAfterPick s l).blind = (step K .nextAfterPick s' m).blind := by
  have hplain' := hplain.congr hblind hlm
  calc (step K .nextAfterPick s l).blind
      = (step K .nextAfterPick s.blind l).blind := step_blind K hplain
    _ = (step K .nextAfterPick s'.blind l).blind := by rw [hblind]
    _ = (step K .nextAfterPick s'.blind m).blind := by
        cases hlm with
        | same => rfl
        | call cpu hx hy => exact step_argument_blind K s'.blind hx hy
    _ = (step K .nextAfterPick s' m).blind := (step_blind K hplain').symm

/-- Two runs whose calls differ in their valid arguments only: in corresponding states
every task has the same weights, the same normal and effective priority, the same
policy and class, and the states differ in `static_prio` and `my_fixed_priority` only. -/
theorem argument_influence (s : State) (ls ms : List Label)
    (hplain : Along (step K .nextAfterPick) Plain s ls)
    (hsame : List.Forall₂ SameButArgument ls ms) (k : ℕ) :
    let s₁ := run (step K .nextAfterPick) s (ls.take k)
    let s₂ := run (step K .nextAfterPick) s (ms.take k)
    s₁.blind = s₂.blind ∧ ∀ p, Option.Rel
      (fun t₁ t₂ ↦ t₁.seLoad = t₂.seLoad ∧ t₁.normalPrio = t₂.normalPrio ∧
        t₁.prio = t₂.prio ∧ t₁.policy = t₂.policy ∧ t₁.schedClass = t₂.schedClass)
      (s₁.task p) (s₂.task p) := by
  intro s₁ s₂
  have hstep : ∀ (s s' : State) (l m : Label), s.blind = s'.blind → SameButArgument l m →
      Plain s l → True →
      (step K .nextAfterPick s l).blind = (step K .nextAfterPick s' m).blind :=
    fun _ _ _ _ hs hlm hok _ ↦ step_related K hs hlm hok
  have hblind : s₁.blind = s₂.blind :=
    run_related (R := fun s s' : State ↦ s.blind = s'.blind) hstep rfl hsame hplain
      (along_of_forall fun _ _ ↦ trivial) k
  refine ⟨hblind, fun p ↦ ?_⟩
  have htask := congrFun (congrArg State.task hblind) p
  simp only [State.blind_task] at htask
  cases h₁ : s₁.task p with
  | none =>
      have h₂ : s₂.task p = none := by simpa [h₁] using htask.symm
      rw [h₂]
      exact .none
  | some t₁ =>
      rw [h₁, Option.map_some] at htask
      obtain ⟨t₂, h₂, heq⟩ := Option.map_eq_some_iff.mp htask.symm
      rw [h₂]
      have hfield : ∀ {α : Type} (f : TaskStruct → α), f t₂.blind = f t₁.blind :=
        fun f ↦ congrArg f heq
      exact .some ⟨(hfield TaskStruct.seLoad).symm, (hfield TaskStruct.normalPrio).symm,
        (hfield TaskStruct.prio).symm, (hfield TaskStruct.policy).symm,
        (hfield TaskStruct.schedClass).symm⟩

/-- A task asks for a priority, is selected, forks, and boosts its child. -/
def askAndFork (priority : ℤ) : List Label :=
  [.mySetProcessPriority 0 priority, .schedule 0 false false 0, .copyProcess 0 1,
    .copyProcessTail 1, .wakeUpNewTask 1, .rtMutexSetprio 1 (some 0)]

theorem argument_influence_fork :
    ((run (step .linux .nextAfterPick) soloMachine (askAndFork 101)).task 1).map
        TaskStruct.staticPrio = some 101 ∧
      ((run (step .linux .nextAfterPick) soloMachine (askAndFork 139)).task 1).map
        TaskStruct.staticPrio = some 139 ∧
      (run (step .linux .nextAfterPick) soloMachine (askAndFork 101)).blind =
        (run (step .linux .nextAfterPick) soloMachine (askAndFork 139)).blind := by
  refine ⟨by decide, by decide, ?_⟩
  refine (argument_influence .linux soloMachine (askAndFork 101) (askAndFork 139) ?_ ?_ 6).1
  · refine ⟨trivial, trivial, fun t ht ↦ ?_, trivial, trivial, trivial, trivial⟩
    rw [← Option.some.inj ht]
    rfl
  · exact .cons (.call 0 (by decide) (by decide)) (.cons (.same _) (.cons (.same _)
      (.cons (.same _) (.cons (.same _) (.cons (.same _) .nil)))))

end NcuKernel.Sched
