import NcuKernel.Uclamp.Groups

/-!
# The accounted clamp of a task is its current one

While a task is on a run queue its effective clamps are those of its last enqueue, and
`uclamp_eff_value` returns them without looking at the group. The walk of a group write
visits the tasks of the groups that change, while tasks come, go and move. For the maximum
that is enough: whenever no walk is under way, the value a task was accounted with is the one
that `uclamp_eff_get` would compute now, unless `cgroup` has moved the task and
`sched_move_task` has yet to follow.
-/

namespace NcuKernel.Uclamp

open Runs Hierarchy
open Sched (ClampId SchedAttr schedCapacityScale uclampNone schedFlagUtilClamp)
open Function (update)

variable {P C G : Type*} {K : Config} {root : G} {s s' : State P C G} {p q : P} {g x : G}
  {id : ClampId}

/-! ## What a task is owed -/

def State.tgMax (s : State P C G) (g : G) : ℕ := ((s.group g).uclamp .max).value

def State.defaultMax (s : State P C G) : ℕ := (s.uclampDefault .max).value

/-- `value` is a maximum that `uclamp_eff_get` could have returned for `p` since the clamps of
its group last changed. The system default counts for the groups below the root only while it
is lower than theirs, and then the walk that will change them is under way. -/
def State.FreshValue [DecidableEq G] (root : G) (s : State P C G) (p : P) (value : ℕ) : Prop :=
  let t := s.task p
  if t.css = root then value = min (t.uclampReq .max).value s.defaultMax
  else s.tgMax t.css ≤ s.defaultMax →
    value = clamp (t.uclampReq .max).value ((s.group t.css).uclamp .min).value (s.tgMax t.css)

/-- The walk will come to the root, because the root does not have the new default yet. -/
def State.RootDue (root : G) (s : State P C G) (p : P) (stack : List G) : Prop :=
  (s.task p).css = root ∧ root ∈ stack ∧ s.tgMax root ≠ s.defaultMax

/-- The walk is going to visit `p`. -/
def State.Due (root : G) (s : State P C G) (p : P) : Prop :=
  match s.walker with
  | .idle => False
  | .visit stack => s.RootDue root p stack
  | .store g _ stack => (s.task p).css = g ∨ s.RootDue root p stack
  | .iterate g pending stack => ((s.task p).css = g ∧ p ∈ pending) ∨ s.RootDue root p stack

variable [DecidableEq G]

structure TaskOk (root : G) (s : State P C G) (p : P) : Prop where
  css_online : (s.group (s.task p).css).online = true
  accounted : (s.se .max p).active = true →
    (s.task p).onRq = true ∧ (s.task p).uclampEnabled = true ∧ s.schedUclampUsed = true
  fresh : (s.se .max p).active = true → s.Settled root p →
    s.FreshValue root p (s.se .max p).value ∨ s.Due root p

/-- `uclamp_eff_get` now. -/
theorem freshValue_effGet (hr : Ranges K s) (hp : s.Settled root p) :
    s.FreshValue root p (uclampEffGet K root s p .max).value := by
  have hmin : ∀ a b : UclampSe, (if b.value < a.value then b else a).value = min a.value b.value :=
    fun a b ↦ by split_ifs <;> omega
  simp only [State.FreshValue, uclampEffGet, hmin]
  split_ifs with hroot
  · have hreq : uclampTgRestrict K root s p .max = (s.task p).uclampReq .max := by
      rcases hp with hp | ⟨-, hp⟩ <;> simp [uclampTgRestrict, hp, hroot]
    rw [hreq]
    rfl
  · have hgroup : (s.task p).schedTaskGroup = .cgroup (s.task p).css :=
      hp.resolve_right fun h ↦ hroot h.1
    intro hle
    have hcap := clamp_le ((s.task p).uclampReq .max).value
      ((s.group (s.task p).css).uclamp .min).value (s.tgMax (s.task p).css)
    have hlt : clamp ((s.task p).uclampReq .max).value
        ((s.group (s.task p).css).uclamp .min).value (s.tgMax (s.task p).css) % 2048 =
        clamp ((s.task p).uclampReq .max).value
          ((s.group (s.task p).css).uclamp .min).value (s.tgMax (s.task p).css) := by
      have hg : s.tgMax (s.task p).css ≤ schedCapacityScale := hr.groupEff _ .max
      refine Nat.mod_eq_of_lt ?_
      simp only [schedCapacityScale] at hg
      omega
    simp only [uclampTgRestrict, hgroup, hroot, if_false, uclampSeSet]
    change min (clamp _ _ (s.tgMax (s.task p).css) % 2048) s.defaultMax = _
    rw [hlt]
    exact min_eq_left (hcap.trans hle)

/-- Nothing that concerns `p` has changed. -/
theorem TaskOk.congr (h : TaskOk root s p) (hs : SameGroups s s')
    (hused : s.schedUclampUsed = true → s'.schedUclampUsed = true)
    (htask : (s'.task p).uclamp .max = (s.task p).uclamp .max ∧
      (s'.task p).uclampReq .max = (s.task p).uclampReq .max ∧
      (s'.task p).css = (s.task p).css ∧ (s'.task p).schedTaskGroup = (s.task p).schedTaskGroup ∧
      (s'.task p).onRq = (s.task p).onRq ∧ (s'.task p).uclampEnabled = (s.task p).uclampEnabled) :
    TaskOk root s' p := by
  obtain ⟨hu, hreq, hcss, hgroup, hon, hen⟩ := htask
  refine ⟨?_, fun hact ↦ ?_, fun hact hset ↦ ?_⟩
  · rw [hcss, hs.group]
    exact h.css_online
  · rw [State.se, hu] at hact
    rw [hon, hen]
    exact (h.accounted hact).imp_right fun hh ↦ hh.imp_right hused
  · rw [State.se, hu] at hact
    rw [State.Settled, hcss, hgroup] at hset
    refine (h.fresh hact hset).imp (fun hf ↦ ?_) fun hd ↦ ?_
    · simpa only [State.FreshValue, State.tgMax, State.defaultMax, State.se, hu, hreq, hcss,
        hs.group, hs.uclampDefault] using hf
    · simpa only [State.Due, State.RootDue, State.tgMax, State.defaultMax, hcss, hs.group,
        hs.uclampDefault, hs.walker] using hd

/-! ## Tasks come, go and move -/

/-- The owner of the change is fresh if it has been accounted anew. -/
theorem taskOk_of_effGet (hr : Ranges K s) (hcss : (s.group (s.task p).css).online = true)
    (hact : (s.se .max p).active = true →
      ((s.task p).onRq = true ∧ (s.task p).uclampEnabled = true ∧ s.schedUclampUsed = true) ∧
        (s.se .max p).value = (uclampEffGet K root s p .max).value) : TaskOk root s p where
  css_online := hcss
  accounted h := (hact h).1
  fresh h hset := .inl (by rw [(hact h).2]; exact freshValue_effGet hr hset)

theorem taskOk_of_inactive (hcss : (s.group (s.task p).css).online = true)
    (hoff : (s.se .max p).active = false) : TaskOk root s p where
  css_online := hcss
  accounted h := by simp [hoff] at h
  fresh h := by simp [hoff] at h

theorem TaskOk.inactive (h : TaskOk root s p) (hon : (s.task p).onRq = false) :
    (s.se .max p).active = false := by
  by_contra hne
  simp [(h.accounted (Bool.not_eq_false _ ▸ hne)).1] at hon

theorem TaskOk.of_onlyClamps (h : TaskOk root s q) (ho : OnlyClamps p s s') (hq : q ≠ p) :
    TaskOk root s' q := by
  obtain ⟨u, hu⟩ := ho.task q
  have hused : s'.schedUclampUsed = s.schedUclampUsed := by rw [ho.rest]
  have hse := ho.se .max q hq
  refine h.congr ho.sameGroups (fun h ↦ hused.trans h) ⟨hse, ?_⟩
  rw [hu]
  exact ⟨rfl, rfl, rfl, rfl, rfl⟩

variable [DecidableEq P] [DecidableEq C]

omit [DecidableEq G] in
theorem uclampRqDec_active (h : (s.se .max p).active = true →
      (s.task p).uclampEnabled = true ∧ s.schedUclampUsed = true) :
    ((s.uclampRqDec K p).se .max p).active = false := by
  by_cases hrun : (s.task p).uclampEnabled = true ∧ s.schedUclampUsed = true
  · simp only [State.uclampRqDec, hrun.1, hrun.2, Bool.not_true, Bool.false_eq_true, if_false]
    exact uclampRqDecId_active
  · have hs : s.uclampRqDec K p = s := by
      simp only [State.uclampRqDec]
      grind
    rw [hs]
    simpa using mt h hrun

omit [DecidableEq C] in
theorem TaskOk.setTask_of_ne {t : Task C G} (h : TaskOk root s q) (hq : q ≠ p) :
    TaskOk root (s.setTask p t) q := by
  refine h.congr (.setTask s p t) (fun h ↦ h) ?_
  simp [State.setTask, hq]

/-- `enqueue_task` of a task that is off its run queue. -/
theorem taskOk_rqInc (hr : Ranges K s) (hcss : (s.group (s.task p).css).online = true)
    (hon : (s.task p).onRq = true) (hoff : (s.se .max p).active = false) :
    TaskOk root (s.uclampRqInc K root p) p := by
  have ho := OnlyClamps.rqInc K root s p
  have hused : (s.uclampRqInc K root p).schedUclampUsed = s.schedUclampUsed := by rw [ho.rest]
  obtain ⟨u, hu⟩ := ho.task p
  refine taskOk_of_effGet (hr.congr ho.sameGroups) ?_ fun hact ↦ ?_
  · rw [hu, ho.sameGroups.group]
    exact hcss
  · rw [uclampRqInc_se] at hact ⊢
    split_ifs at hact ⊢ with hrun
    · rw [hu, hused, ho.effGet]
      exact ⟨⟨hon, hrun.2, hrun.1⟩, rfl⟩
    · simp [hoff] at hact

variable (ht : ∀ q, TaskOk root s q)

include ht

theorem taskOk_change (hr : Ranges K s) {f : Task C G → Task C G}
    (hf : ∀ t, (f t).uclamp = t.uclamp ∧ (f t).onRq = t.onRq ∧ (f t).css = t.css) (q : P) :
    TaskOk root (s.change K root p f) q := by
  simp only [State.change]
  split_ifs with hon
  · have ho := OnlyClamps.rqDec K s p
    obtain ⟨u, hu⟩ := ho.task p
    set s₁ := s.uclampRqDec K p
    set s₂ := s₁.setTask p (f (s₁.task p)) with hs₂
    by_cases hq : q = p
    · subst hq
      have hself : s₂.task q = f (s₁.task q) := by simp [hs₂, State.setTask]
      refine taskOk_rqInc ((hr.congr ho.sameGroups).congr (.setTask ..)) ?_ ?_ ?_
      · rw [hself, (hf _).2.2, hu]
        exact ho.sameGroups.group ▸ (ht q).css_online
      · rw [hself, (hf _).2.1, hu]
        exact hon
      · rw [State.se, hself, (hf _).1]
        exact uclampRqDec_active fun hact ↦ ((ht q).accounted hact).2
    · exact (((ht q).of_onlyClamps ho hq).setTask_of_ne hq).of_onlyClamps (.rqInc K root s₂ p) hq
  · by_cases hq : q = p
    · subst hq
      have hself : (s.setTask q (f (s.task q))).task q = f (s.task q) := by simp [State.setTask]
      refine taskOk_of_inactive ?_ ?_
      · rw [hself, (hf _).2.2]
        exact (ht q).css_online
      · rw [State.se, hself, (hf _).1]
        exact (ht q).inactive (by simpa using hon)
    · exact (ht q).setTask_of_ne hq

theorem taskOk_activate (hr : Ranges K s) (hon : (s.task p).onRq = false) (c : C) (q : P) :
    TaskOk root (s.activateTask K root c p) q := by
  set s₀ := s.setTask p { s.task p with cpu := c } with hs₀
  have ho := OnlyClamps.rqInc K root s₀ p
  have hse := uclampRqInc_se K root s₀ p
  obtain ⟨u, hu⟩ := ho.task p
  set s₁ := s₀.uclampRqInc K root p with hs₁
  have hs : s.activateTask K root c p = s₁.setTask p { s₁.task p with onRq := true } := rfl
  rw [hs]
  by_cases hq : q = p
  · subst hq
    have h₀ : s₀.task q = { s.task q with cpu := c } := by simp [hs₀, State.setTask]
    set s₂ := s₁.setTask q { s₁.task q with onRq := true } with hs₂
    have hgroups : SameGroups s s₂ :=
      ((SameGroups.setTask s q _).trans ho.sameGroups).trans (.setTask ..)
    have hself : s₂.task q = { s₁.task q with onRq := true } := by simp [hs₂, State.setTask]
    have hused : s₂.schedUclampUsed = s₀.schedUclampUsed := by
      have : s₁.schedUclampUsed = s₀.schedUclampUsed := by rw [ho.rest]
      rw [← this]
      rfl
    have heff : uclampEffGet K root s₂ q .max = uclampEffGet K root s₀ q .max := by
      rw [← ho.effGet K root q .max]
      simp only [uclampEffGet, uclampTgRestrict, hself]
      rfl
    refine taskOk_of_effGet (hr.congr hgroups) ?_ fun hact ↦ ?_
    · rw [hself, hu, h₀, hgroups.group]
      exact (ht q).css_online
    · have hse₂ : s₂.se .max q = s₁.se .max q := by rw [State.se, State.se, hself]
      rw [hse₂, hse] at hact ⊢
      split_ifs at hact ⊢ with hrun
      · rw [heff, hused, hself, hu]
        exact ⟨⟨rfl, hrun.2, hrun.1⟩, rfl⟩
      · have hoff : (s₀.se .max q).active = false := by
          rw [State.se, h₀]
          exact (ht q).inactive hon
        simp [hoff] at hact
  · exact (((ht q).setTask_of_ne hq).of_onlyClamps ho hq).setTask_of_ne hq

theorem taskOk_deactivate (q : P) : TaskOk root (s.deactivateTask K p) q := by
  set s₀ := s.setTask p { s.task p with onRq := false } with hs₀
  have ho := OnlyClamps.rqDec K s₀ p
  by_cases hq : q = p
  · subst hq
    have h₀ : s₀.task q = { s.task q with onRq := false } := by simp [hs₀, State.setTask]
    obtain ⟨u, hu⟩ := ho.task q
    refine taskOk_of_inactive ?_ (uclampRqDec_active fun hact ↦ ?_)
    · rw [State.deactivateTask, hu, h₀, ho.sameGroups.group]
      exact (ht q).css_online
    · rw [State.se, h₀] at hact
      rw [h₀]
      exact ((ht q).accounted hact).2
  · exact ((ht q).setTask_of_ne hq).of_onlyClamps ho hq

omit ht

theorem taskOk_of_onTask [Fintype P] {l : Label P C G} (ht : ∀ q, TaskOk root s q)
    (hr : Ranges K s) (hs : next K root s l = some s') (hl : l.onTask = true) (q : P) :
    TaskOk root s' q := by
  cases l with
  | activate c p =>
      simp only [next] at hs
      split_ifs at hs with hon
      cases hs
      exact taskOk_activate ht hr (by simpa using hon) c q
  | deactivate p =>
      simp only [next] at hs
      split_ifs at hs
      cases hs
      exact taskOk_deactivate ht q
  | setprio p rt enabled =>
      cases hs
      refine taskOk_change ht hr (fun t ↦ ?_) q
      exact ⟨rfl, rfl, rfl⟩
  | setscheduler p attr reset rt enabled =>
      cases hs
      have hsame : SameGroups s
        { s with schedUclampUsed := s.schedUclampUsed || attr.has schedFlagUtilClamp } :=
        ⟨rfl, rfl, rfl, rfl, rfl, rfl⟩
      refine taskOk_change (fun q ↦ (ht q).congr hsame (fun hu ↦ by simp [hu])
        ⟨rfl, rfl, rfl, rfl, rfl, rfl⟩) (hr.congr hsame) (fun t ↦ ?_) q
      exact ⟨rfl, rfl, rfl⟩
  | updateUtilMinRtDefault p =>
      simp only [next] at hs
      split_ifs at hs
      cases hs
      by_cases hq : q = p
      · -- the request for the minimum is not looked at here
        subst hq
        refine (ht q).congr (.setTask ..) (fun hu ↦ hu) ?_
        simp only [State.setTask, Function.update_self, __uclampUpdateUtilMinRtDefault]
        split_ifs <;> simp
      · exact (ht q).setTask_of_ne hq
  | fork p child tg rt enabled =>
      simp only [next] at hs
      split_ifs at hs
      cases hs
      by_cases hq : q = child
      · subst hq
        refine taskOk_of_inactive ?_ ?_
        · simp only [State.setTask, Function.update_self, schedChangeGroup, uclampFork]
          split_ifs <;> exact (ht p).css_online
        · simp only [State.se, State.setTask, Function.update_self, schedChangeGroup, uclampFork]
          split_ifs <;> rfl
      · exact (ht q).setTask_of_ne hq
  | migrateCss p g =>
      simp only [next, Bool.and_eq_true, decide_eq_true_eq] at hs
      split_ifs at hs with hcond
      cases hs
      by_cases hq : q = p
      · subst hq
        have hself : (s.setTask q { s.task q with css := g }).task q =
            { s.task q with css := g } := by
          simp [State.setTask]
        by_cases hg : g = (s.task q).css
        · refine (ht q).congr (.setTask ..) (fun hu ↦ hu) ?_
          rw [hself]
          exact ⟨rfl, rfl, hg, rfl, rfl, rfl⟩
        · refine ⟨?_, fun hact ↦ ?_, fun _ hset ↦ ?_⟩
          · rw [hself]
            exact hcond.1
          · rw [State.se, hself] at hact
            rw [hself]
            exact (ht q).accounted hact
          · -- `sched_move_task` has yet to run
            exfalso
            rw [State.Settled, hself] at hset
            rcases hcond.2 with hc | hc <;> rcases hset with hs' | hs'
            · exact hg (GroupRef.cgroup.inj (hs'.symm.trans hc))
            · exact absurd (hs'.2.symm.trans hc) (by simp)
            · exact absurd (hs'.symm.trans hc.2) (by simp)
            · exact hg (hs'.1.trans hc.1.symm)
      · exact (ht q).setTask_of_ne hq
  | moveTask p tg =>
      simp only [next] at hs
      split_ifs at hs
      cases hs
      refine taskOk_change ht hr (fun t ↦ ?_) q
      exact ⟨rfl, rfl, rfl⟩
  | _ => simp [Label.onTask] at hl

/-! ## Groups change -/

omit [DecidableEq P] [DecidableEq C] in
/-- The tasks are as they were. -/
theorem TaskOk.of_sameTask (h : TaskOk root s p) (htask : s'.task p = s.task p)
    (hused : s.schedUclampUsed = true → s'.schedUclampUsed = true)
    (hcss : (s'.group (s.task p).css).online = true)
    (hfresh : ∀ v, s.FreshValue root p v ∨ s.Due root p → s'.FreshValue root p v ∨ s'.Due root p) :
    TaskOk root s' p := by
  have hse : s'.se .max p = s.se .max p := by rw [State.se, State.se, htask]
  refine ⟨by rwa [htask], fun hact ↦ ?_, fun hact hset ↦ ?_⟩
  · rw [hse] at hact
    rw [htask]
    exact (h.accounted hact).imp_right fun hh ↦ hh.imp_right hused
  · rw [hse] at hact ⊢
    rw [State.Settled, htask] at hset
    exact hfresh _ (h.fresh hact hset)

omit [DecidableEq P] [DecidableEq C] in
theorem State.FreshValue.congr {v : ℕ} (h : s.FreshValue root p v) (htask : s'.task p = s.task p)
    (huclamp : (s'.group (s.task p).css).uclamp = (s.group (s.task p).css).uclamp)
    (hdefault : s'.defaultMax = s.defaultMax) : s'.FreshValue root p v := by
  simpa only [State.FreshValue, State.tgMax, htask, huclamp, hdefault] using h

omit [DecidableEq P] [DecidableEq C] [DecidableEq G] in
theorem State.Due.congr (h : s.Due root p) (htask : s'.task p = s.task p)
    (hw : s'.walker = s.walker) (hroot : (s'.group root).uclamp = (s.group root).uclamp)
    (hdefault : s'.defaultMax = s.defaultMax) : s'.Due root p := by
  simpa only [State.Due, State.RootDue, State.tgMax, htask, hw, hroot, hdefault] using h

/-- The root group and the default follow the sysctl. -/
structure RootMax (root : G) (s : State P C G) : Prop where
  default : s.defaultMax = s.sysctlMax
  request : ((s.group root).uclampReq .max).value = s.sysctlMax

structure FreshInv (K : Config) (root : G) (s : State P C G) : Prop
    extends GroupInv K root s where
  rootMax : RootMax root s
  tasks : ∀ p, TaskOk root s p

omit [DecidableEq P] [DecidableEq C] [DecidableEq G] in
/-- No group below the root exceeds the default, except while a walk is under way. -/
theorem GroupInv.tgMax_le (h : GroupInv K root s) (hm : RootMax root s)
    (hidle : s.walker.isIdle = true) (hg : (s.group g).online = true) :
    s.tgMax g ≤ s.defaultMax := by
  obtain ⟨l, hl, hon⟩ := h.consistent.rooted g hg
  have hok : ∀ b, (s.group b).online = true → s.EffOk b := fun b hb ↦
    h.consistent.effOk_of_idle hidle hb
  obtain ⟨⟨-, hle⟩, -⟩ := isLeast_of_effOk hl fun b hb ↦ ⟨hok b (hon b hb), fun c hc ↦
    hok c (h.consistent.toTree.parent_online (hon b hb) hc)⟩
  obtain ⟨b, hb, hp⟩ := hl.exists_top
  rw [hm.default, ← hm.request]
  exact hle ⟨root, h.consistent.top b (hon b hb) hp ▸ hb, rfl⟩

omit [DecidableEq P] [DecidableEq C] [DecidableEq G] in
theorem due_false_of_idle (hidle : s.walker.isIdle = true) : ¬s.Due root p := by
  cases hw : s.walker <;> simp_all [State.Due, Walker.isIdle]

omit [DecidableEq P] [DecidableEq C] in
/-- A group that holds no task changes, or only what the tasks do not read. -/
theorem FreshInv.taskOk_of_uclamp (h : FreshInv K root s) (s' : State P C G)
    (htask : s'.task = s.task)
    (hused : s.schedUclampUsed = true → s'.schedUclampUsed = true)
    (hgroup : ∀ p, (s'.group (s.task p).css).uclamp = (s.group (s.task p).css).uclamp ∧
      (s'.group (s.task p).css).online = true)
    (hdefault : s'.defaultMax = s.defaultMax)
    (hdue : ∀ p, s.Due root p → s'.Due root p) (p : P) : TaskOk root s' p := by
  have htask' : s'.task p = s.task p := by rw [htask]
  exact (h.tasks p).of_sameTask htask' hused (hgroup p).2 fun v hv ↦
    hv.imp (fun hf ↦ hf.congr htask' (hgroup p).1 hdefault) (hdue p)

omit [DecidableEq P] [DecidableEq C] in
/-- The system default moves; no walk is under way. -/
theorem FreshInv.taskOk_updateRootTg (h : FreshInv K root s) (hidle : s.walker.isIdle = true)
    (s' : State P C G) (htask : s'.task = s.task) (hgroup : s'.group = s.group) (p : P) :
    TaskOk root (({ s' with schedUclampUsed := true }).uclampUpdateRootTg K root) p := by
  set s'' := ({ s' with schedUclampUsed := true }).uclampUpdateRootTg K root with hs''
  have htask'' : s''.task p = s.task p := by rw [← htask]; rfl
  have huclamp : ∀ g, (s''.group g).uclamp = (s.group g).uclamp ∧
      (s''.group g).online = (s.group g).online := fun g ↦ by
    by_cases hg : g = root <;> simp [hs'', State.uclampUpdateRootTg, State.setGroup, hgroup, hg]
  refine (h.tasks p).of_sameTask htask'' (fun _ ↦ rfl) ?_ fun v hv ↦ ?_
  · rw [(huclamp _).2]
    exact (h.tasks p).css_online
  · have hfresh := hv.resolve_right (due_false_of_idle hidle)
    have hle := h.toGroupInv.tgMax_le h.rootMax hidle (h.tasks p).css_online
    by_cases hmax : s''.defaultMax = s.defaultMax
    · exact .inl (hfresh.congr htask'' (huclamp _).1 hmax)
    by_cases hroot : (s.task p).css = root
    · -- the root still has the old maximum
      refine .inr ⟨htask'' ▸ hroot, by simp, ?_⟩
      have hok := h.consistent.effOk_of_idle hidle h.consistent.root_online .max
      have hold : s''.tgMax root = s.defaultMax := by
        rw [State.tgMax, (huclamp root).1, hok, State.eff,
          State.capped_of_top h.consistent.root_parent, h.rootMax.request, h.rootMax.default]
      rw [hold]
      exact Ne.symm hmax
    · left
      simp only [State.FreshValue, State.tgMax, htask'', (huclamp _).1, hroot, if_false] at hfresh ⊢
      exact fun _ ↦ hfresh hle

omit [DecidableEq P] [DecidableEq C] in
/-- The walk goes on and stores nothing. -/
theorem FreshInv.taskOk_setWalker (h : FreshInv K root s) {walker : Walker P G}
    (hdue : ∀ p, s.Due root p → { s with walker := walker }.Due root p) (p : P) :
    TaskOk root { s with walker := walker } p :=
  h.taskOk_of_uclamp { s with walker := walker } rfl (fun hu ↦ hu)
    (fun p ↦ ⟨rfl, (h.tasks p).css_online⟩) rfl hdue p

omit [DecidableEq C] in
theorem FreshInv.taskOk_walk [Fintype P] (h : FreshInv K root s)
    (hs : s.utilUpdateEff K = some s') (p : P) : TaskOk root s' p := by
  simp only [State.utilUpdateEff] at hs
  split at hs
  · cases hs
  · rename_i hw
    cases hs
    refine h.taskOk_setWalker (fun q hq ↦ ?_) p
    simp [State.Due, State.RootDue, hw] at hq
  · rename_i g stack hw
    split_ifs at hs with hnone <;> cases hs
    · refine h.taskOk_setWalker (fun q hq ↦ ?_) p
      simp only [State.Due, State.RootDue, hw, List.mem_cons] at hq ⊢
      obtain ⟨hcss, hmem, hne⟩ := hq
      refine ⟨hcss, hmem.resolve_left fun hg ↦ hne ?_, hne⟩
      -- a root without changes has the default already
      subst hg
      have hok := effOk_of_clamps hnone .max
      rw [State.eff, State.capped_of_top h.consistent.root_parent, h.rootMax.request] at hok
      exact hok.trans h.rootMax.default.symm
    · refine h.taskOk_setWalker (fun q hq ↦ ?_) p
      simp only [State.Due, State.RootDue, hw, List.mem_cons] at hq ⊢
      obtain ⟨hcss, hmem, hne⟩ := hq
      rcases hmem with hg | hmem
      · exact .inl (hcss.trans hg)
      · exact .inr ⟨hcss, hmem, hne⟩
  · rename_i g id value eff stack hw
    cases hs
    set s' : State P C G := { s.storeEff K g id value with walker := .store g eff stack } with hs'
    have hgroup : ∀ x ≠ g, s'.group x = s.group x := fun x hx ↦ by
      simp [hs', State.storeEff, State.setGroup, hx]
    have honline : ∀ x, (s'.group x).online = (s.group x).online := fun x ↦ by
      by_cases hx : x = g <;> simp [hs', State.storeEff, State.setGroup, hx]
    refine (h.tasks p).of_sameTask rfl (fun hu ↦ hu) ?_ fun v hv ↦ ?_
    · rw [honline]
      exact (h.tasks p).css_online
    · by_cases hcss : (s.task p).css = g
      · exact .inr (.inl hcss)
      · refine hv.imp (fun hf ↦ hf.congr rfl (by rw [hgroup _ hcss]) rfl) fun hd ↦ ?_
        simp only [State.Due, hw] at hd
        refine (hd.imp_left fun heq ↦ absurd heq hcss).imp_right fun hroot ↦ ?_
        have hne : root ≠ g := fun heq ↦ hcss (hroot.1.trans heq)
        refine ⟨hroot.1, hroot.2.1, ?_⟩
        rw [State.tgMax, hgroup root hne]
        exact hroot.2.2
  · rename_i g stack hw
    cases hs
    refine h.taskOk_setWalker (fun q hq ↦ ?_) p
    simp only [State.Due, hw] at hq
    exact hq.imp_left fun hcss ↦ ⟨hcss, Finset.mem_filter.mpr ⟨Finset.mem_univ q, hcss⟩⟩
  · rename_i g pending stack hw
    split_ifs at hs with hall
    cases hs
    refine h.taskOk_setWalker (fun q hq ↦ ?_) p
    simp only [State.Due, hw] at hq
    have hroot := hq.resolve_left fun hmem ↦ hall q hmem.2 hmem.1
    exact ⟨hroot.1, List.mem_append_right _ hroot.2.1, hroot.2.2⟩

theorem FreshInv.taskOk_updateActive (h : FreshInv K root s) {pending : Finset P} {stack : List G}
    (hw : s.walker = .iterate g pending stack) (p q : P) :
    TaskOk root { s.uclampUpdateActive K root p with
      walker := .iterate g (pending.erase p) stack } q := by
  have ho := OnlyClamps.updateActive K root s p
  have hsame := ho.sameGroups
  have hse := uclampUpdateActive_se K root s p
  by_cases hq : q = p
  · subst hq
    obtain ⟨u, hu⟩ := ho.task q
    have hused : (s.uclampUpdateActive K root q).schedUclampUsed = s.schedUclampUsed := by
      rw [ho.rest]
    set s₁ := s.uclampUpdateActive K root q
    refine taskOk_of_effGet (K := K) ((h.ranges.congr hsame).setWalker (by simp)) ?_ fun hact ↦ ?_
    · simp only [hu, hsame.group]
      exact (h.tasks q).css_online
    · have hact' : (s₁.se .max q).active = true := hact
      rw [hse] at hact'
      split_ifs at hact' with hold
      · refine ⟨?_, ?_⟩
        · simp only [hu, hused]
          exact (h.tasks q).accounted hold
        · have hvalue : (s₁.se .max q).value = (uclampEffGet K root s₁ q .max).value := by
            rw [hse, if_pos hold, ho.effGet]
          exact hvalue
      · exact absurd hact' hold
  · refine ((h.tasks q).of_onlyClamps ho hq).of_sameTask rfl (fun hu ↦ hu) ?_ fun v hv ↦ ?_
    · exact ((h.tasks q).of_onlyClamps ho hq).css_online
    · refine hv.imp (fun hf ↦ hf.congr rfl rfl rfl) fun hd ↦ ?_
      simp only [State.Due, hsame.walker, hw] at hd
      exact hd.imp_left fun hmem ↦ ⟨hmem.1, Finset.mem_erase.mpr ⟨hq, hmem.2⟩⟩

/-! ## Every step -/

variable [Fintype P]

omit [DecidableEq P] [DecidableEq C] [DecidableEq G] [Fintype P] in
theorem RootMax.congr (h : RootMax root s) (hdefault : s'.defaultMax = s.defaultMax)
    (hsysctl : s'.sysctlMax = s.sysctlMax)
    (hreq : (s'.group root).uclampReq .max = (s.group root).uclampReq .max) : RootMax root s' :=
  ⟨hdefault.trans (h.default.trans hsysctl.symm), by rw [hreq, hsysctl, h.request]⟩

omit [DecidableEq P] [DecidableEq C] [Fintype P] in
theorem RootMax.sysctlHandler (h : RootMax root s) (hr : Ranges K s) (which : Sysctl)
    (value : ℕ) : RootMax root (s.sysctlSchedUclampHandler K root which value) := by
  have hfit : ∀ v, v ≤ schedCapacityScale → v % 2048 = v := fun v hv ↦
    Nat.mod_eq_of_lt (by simp only [schedCapacityScale] at hv; omega)
  rcases sysctlSchedUclampHandler_cases K root s which value with
    heq | ⟨-, -, heq⟩ | ⟨-, hv, -, heq⟩ | ⟨-, heq⟩ <;> rw [heq]
  · exact h
  · refine ⟨h.default, ?_⟩
    simp [State.uclampUpdateRootTg, State.setGroup, State.setDefault, uclampSeSet,
      hfit _ hr.sysctl.2.1]
  · constructor <;> simp [State.uclampUpdateRootTg, State.setGroup, State.setDefault,
      State.defaultMax, uclampSeSet, hfit _ hv]
  · exact ⟨h.default, h.request⟩

theorem FreshInv.rootMax_next {l : Label P C G} (h : FreshInv K root s)
    (hs : next K root s l = some s') : RootMax root s' := by
  by_cases hl : l.onTask = true
  · have hsame := sameGroups_of_next hs hl
    exact h.rootMax.congr (by rw [State.defaultMax, hsame.uclampDefault]; rfl) hsame.sysctlMax
      (by rw [hsame.group])
  cases l with
  | cssAlloc g parent =>
      simp only [Uclamp.next, Bool.and_eq_true, Bool.not_eq_true'] at hs
      split_ifs at hs with hcond
      cases hs
      have hroot : root ≠ g := fun heq ↦ by simp [← heq, h.consistent.root_online] at hcond
      exact h.rootMax.congr rfl rfl (by simp [State.allocGroup, State.setGroup, hroot])
  | cssOnline g x =>
      simp only [Uclamp.next, Bool.and_eq_true, Bool.not_eq_true'] at hs
      split_ifs at hs with hcond
      cases hs
      refine h.rootMax.congr rfl rfl ?_
      simp only [State.onlineGroup, State.setGroup, Function.update_apply]
      split_ifs <;> simp_all
  | cssReleased g =>
      simp only [Uclamp.next] at hs
      split_ifs at hs
      cases hs
      simp only [State.releaseGroup]
      split
      all_goals
        refine h.rootMax.congr rfl rfl ?_
        simp only [State.setGroup, Function.update_apply]
        split_ifs <;> simp_all
  | uclampWrite g id input =>
      simp only [Uclamp.next, Bool.and_eq_true, decide_eq_true_eq] at hs
      split_ifs at hs with hcond
      obtain ⟨req, -, rfl⟩ := Option.map_eq_some_iff.mp hs
      exact h.rootMax.congr rfl rfl
        (by simp [State.cpuUclampWrite, State.setGroup, Ne.symm hcond.2])
  | sysctl which value =>
      simp only [Uclamp.next] at hs
      split_ifs at hs
      cases hs
      exact h.rootMax.sysctlHandler h.ranges which value
  | walk =>
      simp only [Uclamp.next, State.utilUpdateEff] at hs
      split at hs <;> (try split_ifs at hs) <;> cases hs
      case h_4 g id value eff stack _ =>
        refine h.rootMax.congr rfl rfl ?_
        by_cases hg : root = g <;> simp [State.storeEff, State.setGroup, hg]
      all_goals exact ⟨h.rootMax.default, h.rootMax.request⟩
  | updateActive p =>
      simp only [Uclamp.next] at hs
      split at hs
      · split_ifs at hs
        cases hs
        have hsame := (OnlyClamps.updateActive K root s p).sameGroups
        exact h.rootMax.congr (by simp only [State.defaultMax, hsame.uclampDefault])
          hsame.sysctlMax (by simp only [hsame.group])
      · cases hs
  | _ => simp [Label.onTask] at hl

theorem FreshInv.next {l : Label P C G} (h : FreshInv K root s)
    (hs : next K root s l = some s') : FreshInv K root s' := by
  refine ⟨⟨h.ranges.next hs, h.consistent.next h.ranges hs⟩, h.rootMax_next hs, fun p ↦ ?_⟩
  by_cases hl : l.onTask = true
  · exact taskOk_of_onTask h.tasks h.ranges hs hl p
  cases l with
  | cssAlloc g parent =>
      simp only [Uclamp.next, Bool.and_eq_true, Bool.not_eq_true'] at hs
      split_ifs at hs with hcond
      cases hs
      have hne : ∀ x, (s.group x).online = true → (s.allocGroup K g parent).group x = s.group x :=
        fun x hx ↦ by
          have hxg : x ≠ g := fun heq ↦ by simp [heq, hcond.1] at hx
          simp [State.allocGroup, State.setGroup, hxg]
      refine h.taskOk_of_uclamp (s.allocGroup K g parent) rfl (fun hu ↦ hu) (fun q ↦ ?_) rfl
        (fun q hd ↦ ?_) p
      · rw [hne _ (h.tasks q).css_online]
        exact ⟨rfl, (h.tasks q).css_online⟩
      · exact hd.congr rfl rfl (by rw [hne root h.consistent.root_online]) rfl
  | cssOnline g x =>
      simp only [Uclamp.next, Bool.and_eq_true, Bool.not_eq_true'] at hs
      split_ifs at hs with hcond
      cases hs
      obtain ⟨⟨hidle, hg⟩, -⟩ := hcond
      refine h.taskOk_of_uclamp (s.onlineGroup g x) rfl (fun hu ↦ hu) (fun q ↦ ?_) rfl
        (fun q hd ↦ absurd hd (due_false_of_idle hidle)) p
      have hon := (h.tasks q).css_online
      have hne : (s.task q).css ≠ g := fun heq ↦ by simp [heq, hg] at hon
      by_cases hx : (s.task q).css = x
      · subst hx
        simp only [State.onlineGroup, State.setGroup, Function.update_self,
          Function.update_of_ne hne]
        exact ⟨trivial, hon⟩
      · simp [State.onlineGroup, State.setGroup, hne, hx, hon]
  | cssReleased g =>
      simp only [Uclamp.next, Bool.and_eq_true, decide_eq_true_eq] at hs
      split_ifs at hs with hcond
      cases hs
      obtain ⟨⟨-, hroot⟩, hempty⟩ := hcond
      have hne : ∀ x ≠ g, ((s.releaseGroup g).group x).uclamp = (s.group x).uclamp ∧
          ((s.releaseGroup g).group x).online = (s.group x).online := fun x hx ↦ by
        simp only [State.releaseGroup]
        split
        · simp [State.setGroup, hx]
        · rename_i q _
          by_cases hq : x = q
          · subst hq
            simp [State.setGroup, hx]
          · simp [State.setGroup, hx, hq]
      have hrest : (s.releaseGroup g).task = s.task ∧ (s.releaseGroup g).walker = s.walker ∧
          (s.releaseGroup g).defaultMax = s.defaultMax ∧
          (s.releaseGroup g).schedUclampUsed = s.schedUclampUsed := by
        simp only [State.releaseGroup]
        split <;> exact ⟨rfl, rfl, rfl, rfl⟩
      obtain ⟨htask, hw, hdefault, hused⟩ := hrest
      refine h.taskOk_of_uclamp (s.releaseGroup g) htask (fun hu ↦ hused.trans hu) (fun q ↦ ?_)
        hdefault (fun q hd ↦ ?_) p
      · obtain ⟨hu, ho⟩ := hne _ (hempty.2 q).1
        exact ⟨hu, ho.trans (h.tasks q).css_online⟩
      · exact hd.congr (by rw [htask]) hw (hne root (Ne.symm hroot)).1 hdefault
  | uclampWrite g id input =>
      simp only [Uclamp.next, Bool.and_eq_true, decide_eq_true_eq] at hs
      split_ifs at hs with hcond
      obtain ⟨req, -, rfl⟩ := Option.map_eq_some_iff.mp hs
      refine h.taskOk_of_uclamp (s.cpuUclampWrite K g id req) rfl (fun _ ↦ rfl) (fun q ↦ ?_) rfl
        (fun q hd ↦ absurd hd (due_false_of_idle hcond.1.1)) p
      have hon := (h.tasks q).css_online
      by_cases hg : (s.task q).css = g
      · subst hg
        simpa [State.cpuUclampWrite, State.setGroup] using hon
      · simp [State.cpuUclampWrite, State.setGroup, hg, hon]
  | sysctl which value =>
      simp only [Uclamp.next] at hs
      split_ifs at hs with hidle
      cases hs
      rcases sysctlSchedUclampHandler_cases K root s which value with
        heq | ⟨-, -, heq⟩ | ⟨-, -, -, heq⟩ | ⟨-, heq⟩ <;> rw [heq]
      · exact h.tasks p
      · exact h.taskOk_updateRootTg hidle ({ s with sysctlMin := value }.setDefault K .min value)
          rfl rfl p
      · exact h.taskOk_updateRootTg hidle ({ s with sysctlMax := value }.setDefault K .max value)
          rfl rfl p
      · exact h.taskOk_of_uclamp { s with sysctlMinRtDefault := value, schedUclampUsed := true } rfl
          (fun _ ↦ rfl) (fun q ↦ ⟨rfl, (h.tasks q).css_online⟩) rfl (fun q hd ↦ hd) p
  | walk => exact h.taskOk_walk hs p
  | updateActive p' =>
      simp only [Uclamp.next] at hs
      split at hs
      · rename_i g pending stack hw
        split_ifs at hs
        cases hs
        exact h.taskOk_updateActive hw p' p
      · cases hs
  | _ => simp [Label.onTask] at hl

theorem FreshInv.step (h : FreshInv K root s) (l : Label P C G) :
    FreshInv K root (step K root s l) := by
  rw [Uclamp.step]
  cases hs : Uclamp.next K root s l with
  | none => exact h
  | some s' => exact h.next hs

omit [DecidableEq P] in
theorem freshInv_init (K : Config) (root : G) (boot : C) :
    FreshInv K root (State.init K root boot : State P C G) where
  toGroupInv := groupInv_init K root boot
  rootMax := ⟨rfl, rfl⟩
  tasks p := taskOk_of_inactive (by simp [State.init]) rfl

/-- Whenever no walk is under way, `uclamp_eff_value` of a settled task, one for which
`sched_move_task` has run since `cgroup` last moved it, is the maximum that its request, its
group and the system default give now, whether or not it has been on a run queue while they
changed. -/
theorem uclampEffValue_fresh (K : Config) (root : G) (boot : C) (ls : List (Label P C G)) :
    AllStates (step K root) (fun s ↦ s.walker = .idle → ∀ p, s.Settled root p →
      uclampEffValue K root s p .max = (uclampEffGet K root s p .max).value)
      (State.init K root boot) ls := by
  have hinv : AllStates (Uclamp.step K root) (FreshInv K root) (State.init K root boot) ls :=
    allStates_of_step (fun s l h ↦ h.step l) (freshInv_init K root boot) ls
  refine hinv.imp fun s h hw p hset ↦ ?_
  have hidle : s.walker.isIdle = true := by rw [hw]; rfl
  simp only [uclampEffValue]
  split_ifs with hact
  · have hold := ((h.tasks p).fresh hact hset).resolve_right (due_false_of_idle hidle)
    have hnew := freshValue_effGet h.ranges hset
    simp only [State.FreshValue] at hold hnew
    split_ifs at hold hnew with hroot
    · exact hold.trans hnew.symm
    · have hle := h.toGroupInv.tgMax_le h.rootMax hidle (h.tasks p).css_online
      exact (hold hle).trans (hnew hle).symm
  · rfl

/-- A group is created, a task moves there and is enqueued. -/
def enqueueInGroup : List (Label Unit Unit (Option Bool)) :=
  [.cssAlloc (some false) none, .cssOnline (some false) none] ++ List.replicate 6 .walk ++
    [.migrateCss () (some false), .moveTask () (.cgroup (some false)),
      .setscheduler () (clampAttr 100 1024) false false true, .activate () ()]

/-- The maximum of the group is halved, and the walk visits the task. -/
def halvedRun : List (Label Unit Unit (Option Bool)) :=
  enqueueInGroup ++ [.uclampWrite (some false) .max (.percent 5000), .walk, .walk, .walk,
    .updateActive (), .walk, .walk]

theorem uclampEffValue_fresh_halved :
    let s := run (step fiveBuckets none) (State.init fiveBuckets none ()) halvedRun
    s.walker = .idle ∧ s.on () .max () = true ∧ s.Settled none () ∧
      (uclampEffGet fiveBuckets none s () .max).value = 512 ∧
      uclampEffValue fiveBuckets none s () .max = 512 := by
  intro s
  have hend := allStates_iff_take.mp
    (uclampEffValue_fresh fiveBuckets none () halvedRun) halvedRun.length
  rw [List.take_length] at hend
  have hidle : s.walker = .idle := by rfl
  have hsettled : s.Settled none () := by decide +kernel
  have heff : (uclampEffGet fiveBuckets none s () .max).value = 512 := by decide +kernel
  exact ⟨hidle, by decide +kernel, hsettled, heff, (hend hidle () hsettled).trans heff⟩

-- the task is on its way to the root group, so the walk does not visit it in the old one
example :
    let s := run (step fiveBuckets none) (State.init fiveBuckets none ()) (enqueueInGroup ++
      [.migrateCss () none, .uclampWrite (some false) .max (.percent 5000), .walk, .walk, .walk,
        .walk, .walk])
    s.walker.isIdle = true ∧ uclampEffValue fiveBuckets none s () .max = 1024 ∧
      (uclampEffGet fiveBuckets none s () .max).value = 512 := by
  decide +kernel

/-- A boosted task in a group that requests no minimum, when the system default is lowered. -/
def lowerDefaultRun : List (Label Unit Unit Bool) :=
  [.cssAlloc true false, .cssOnline true false, .walk, .walk, .walk, .walk, .walk, .walk,
    .migrateCss () true, .moveTask () (.cgroup true),
    .setscheduler () (clampAttr 800 1024) false false true,
    .activate () (), .sysctl .min 100, .walk, .walk, .walk, .walk, .walk, .walk]

-- the minimum is not always fresh: the group has nothing to change, so its task is not visited
example :
    let s := run (step fiveBuckets false) (State.init fiveBuckets false ()) lowerDefaultRun
    s.walker.isIdle = true ∧ uclampEffValue fiveBuckets false s () .min = 800 ∧
      (uclampEffGet fiveBuckets false s () .min).value = 100 := by
  decide +kernel

end NcuKernel.Uclamp
