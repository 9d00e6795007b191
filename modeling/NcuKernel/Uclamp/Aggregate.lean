import NcuKernel.Uclamp.Accounting

/-!
# The clamp of a run queue is the largest clamp of its tasks

Over every run: a bucket counts the accounted tasks in it, none of them has a larger
effective clamp than its run queue, and the clamp of the run queue lies in the bucket of
one of them. A queued task is accounted unless it was enqueued before `sched_uclamp_used`
went on.
-/

namespace NcuKernel.Uclamp

open Runs
open Sched (ClampId SchedAttr schedCapacityScale uclampNone schedFlagUtilClamp)
open Function (update)

variable {P C G : Type*} [Fintype P] [DecidableEq P] [DecidableEq C] [DecidableEq G]
  {K : Config} {root : G} {s s' : State P C G} {p q : P} {c : C} {g : G} {id : ClampId}
  {l : Label P C G}

/-! ## What a step leaves alone -/

/-- The steps under `task_rq_lock` that do not come from the walk. -/
def Label.onTask : Label P C G → Bool
  | .activate .. | .deactivate .. | .setprio .. | .setscheduler .. | .updateUtilMinRtDefault ..
  | .fork .. | .migrateCss .. | .moveTask .. => true
  | _ => false

/-- The steps of whoever holds `uclamp_mutex`, and the life of groups. -/
def Label.onGroup : Label P C G → Bool
  | .cssAlloc .. | .cssOnline .. | .cssReleased .. | .uclampWrite .. | .sysctl .. | .walk => true
  | _ => false

/-- The groups, the defaults and the writer are as they were. -/
structure SameGroups (s s' : State P C G) : Prop where
  group : s'.group = s.group
  uclampDefault : s'.uclampDefault = s.uclampDefault
  sysctlMin : s'.sysctlMin = s.sysctlMin
  sysctlMax : s'.sysctlMax = s.sysctlMax
  sysctlMinRtDefault : s'.sysctlMinRtDefault = s.sysctlMinRtDefault
  walker : s'.walker = s.walker

section

omit [Fintype P] [DecidableEq P] [DecidableEq C] [DecidableEq G]

theorem SameGroups.trans {s'' : State P C G} (h : SameGroups s s') (h' : SameGroups s' s'') :
    SameGroups s s'' :=
  ⟨h'.1.trans h.1, h'.2.trans h.2, h'.3.trans h.3, h'.4.trans h.4, h'.5.trans h.5, h'.6.trans h.6⟩

theorem OnlyClamps.sameGroups (h : OnlyClamps p s s') : SameGroups s s' := by
  rw [h.rest]
  exact ⟨rfl, rfl, rfl, rfl, rfl, rfl⟩

theorem SameGroups.setTask [DecidableEq P] (s : State P C G) (p : P) (t : Task C G) :
    SameGroups s (s.setTask p t) := ⟨rfl, rfl, rfl, rfl, rfl, rfl⟩

end

omit [Fintype P] in
theorem SameGroups.change (K : Config) (root : G) (s : State P C G) (p : P)
    (f : Task C G → Task C G) : SameGroups s (s.change K root p f) := by
  simp only [State.change]
  split_ifs
  · exact ((OnlyClamps.rqDec K s p).sameGroups.trans (.setTask _ _ _)).trans
      (OnlyClamps.rqInc K root _ p).sameGroups
  · exact .setTask _ _ _

theorem sameGroups_of_next (h : next K root s l = some s') (hl : l.onTask = true) :
    SameGroups s s' := by
  cases l with
  | activate c p =>
      simp only [next] at h
      split_ifs at h
      obtain rfl := Option.some.inj h
      exact ((SameGroups.setTask s p _).trans (OnlyClamps.rqInc K root _ p).sameGroups).trans
        (.setTask _ _ _)
  | deactivate p =>
      simp only [next] at h
      split_ifs at h
      obtain rfl := Option.some.inj h
      exact (SameGroups.setTask s p _).trans (OnlyClamps.rqDec K _ p).sameGroups
  | setprio p rt enabled =>
      obtain rfl := Option.some.inj h
      exact .change ..
  | setscheduler p attr reset rt enabled =>
      obtain rfl := Option.some.inj h
      have hset : SameGroups s
        { s with schedUclampUsed := s.schedUclampUsed || attr.has schedFlagUtilClamp } :=
        ⟨rfl, rfl, rfl, rfl, rfl, rfl⟩
      exact hset.trans (.change ..)
  | updateUtilMinRtDefault p =>
      simp only [next] at h
      split_ifs at h
      obtain rfl := Option.some.inj h
      exact .setTask ..
  | fork p child tg rt enabled =>
      simp only [next] at h
      split_ifs at h
      obtain rfl := Option.some.inj h
      exact .setTask ..
  | migrateCss p g =>
      simp only [next] at h
      split_ifs at h
      obtain rfl := Option.some.inj h
      exact .setTask ..
  | moveTask p tg =>
      simp only [next] at h
      split_ifs at h
      obtain rfl := Option.some.inj h
      exact .change ..
  | _ => simp [Label.onTask] at hl

omit [Fintype P] [DecidableEq P] [DecidableEq C] in
/-- A write to a sysctl is refused or changes nothing, moves one of the system defaults, or
moves the default of real-time tasks. -/
theorem sysctlSchedUclampHandler_cases (K : Config) (root : G) (s : State P C G)
    (which : Sysctl) (value : ℕ) :
    s.sysctlSchedUclampHandler K root which value = s ∨
      (value ≤ s.sysctlMax ∧ value ≠ s.sysctlMin ∧
        s.sysctlSchedUclampHandler K root which value =
          { { s with sysctlMin := value }.setDefault K .min value with
            schedUclampUsed := true }.uclampUpdateRootTg K root) ∨
      (s.sysctlMin ≤ value ∧ value ≤ schedCapacityScale ∧ value ≠ s.sysctlMax ∧
        s.sysctlSchedUclampHandler K root which value =
          { { s with sysctlMax := value }.setDefault K .max value with
            schedUclampUsed := true }.uclampUpdateRootTg K root) ∨
      value ≤ schedCapacityScale ∧ s.sysctlSchedUclampHandler K root which value =
        { s with sysctlMinRtDefault := value, schedUclampUsed := true } := by
  by_cases hbad : (s.setSysctl which value).sysctlMax < (s.setSysctl which value).sysctlMin ∨
      schedCapacityScale < (s.setSysctl which value).sysctlMax ∨
      schedCapacityScale < (s.setSysctl which value).sysctlMinRtDefault
  · exact .inl (by rw [State.sysctlSchedUclampHandler, if_pos hbad])
  have hgood := hbad
  simp only [State.sysctlSchedUclampHandler, if_neg hbad]
  push Not at hgood
  cases which with
  | min =>
      by_cases hv : s.sysctlMin = value
      · subst hv
        exact .inl (by simp [State.setSysctl])
      · exact .inr (.inl ⟨hgood.1, Ne.symm hv, by
          simp [State.setSysctl, hv, State.setDefault, State.uclampUpdateRootTg, State.setGroup]⟩)
  | max =>
      by_cases hv : s.sysctlMax = value
      · subst hv
        exact .inl (by simp [State.setSysctl])
      · exact .inr (.inr (.inl ⟨hgood.1, hgood.2.1, Ne.symm hv, by
          simp [State.setSysctl, hv, State.setDefault, State.uclampUpdateRootTg, State.setGroup]⟩))
  | minRtDefault =>
      by_cases hv : s.sysctlMinRtDefault = value
      · subst hv
        exact .inl (by simp [State.setSysctl])
      · exact .inr (.inr (.inr ⟨hgood.2.2, by simp [State.setSysctl, hv]⟩))

theorem sameTasks_of_next (h : next K root s l = some s') (hl : l.onGroup = true) :
    s'.task = s.task ∧ s'.rq = s.rq ∧ (s.schedUclampUsed = true → s'.schedUclampUsed = true) := by
  cases l with
  | cssAlloc g parent =>
      simp only [next] at h
      split_ifs at h
      obtain rfl := Option.some.inj h
      exact ⟨rfl, rfl, fun hu ↦ hu⟩
  | cssOnline g parent =>
      simp only [next] at h
      split_ifs at h
      obtain rfl := Option.some.inj h
      exact ⟨rfl, rfl, fun hu ↦ hu⟩
  | cssReleased g =>
      simp only [next] at h
      split_ifs at h
      obtain rfl := Option.some.inj h
      simp only [State.releaseGroup]
      split <;> exact ⟨rfl, rfl, fun hu ↦ hu⟩
  | uclampWrite g id input =>
      simp only [next] at h
      split_ifs at h
      obtain ⟨req, -, rfl⟩ := Option.map_eq_some_iff.mp h
      exact ⟨rfl, rfl, fun _ ↦ rfl⟩
  | sysctl which value =>
      simp only [next] at h
      split_ifs at h
      obtain rfl := Option.some.inj h
      rcases sysctlSchedUclampHandler_cases K root s which value with
        heq | ⟨-, -, heq⟩ | ⟨-, -, -, heq⟩ | ⟨-, heq⟩ <;> rw [heq]
      · exact ⟨rfl, rfl, fun hu ↦ hu⟩
      all_goals exact ⟨rfl, rfl, fun _ ↦ rfl⟩
  | walk =>
      simp only [next, State.utilUpdateEff] at h
      split at h <;> (try split_ifs at h) <;> cases h <;> exact ⟨rfl, rfl, fun hu ↦ hu⟩
  | _ => simp [Label.onGroup] at hl

/-! ## Values in range -/

/-- What the writers of group clamps and of the sysctls let through. -/
structure Ranges (K : Config) (s : State P C G) : Prop where
  default : ∀ id, (s.uclampDefault id).Wf K
  groupReq : ∀ g id, ((s.group g).uclampReq id).value ≤ schedCapacityScale
  groupEff : ∀ g id, ((s.group g).uclamp id).value ≤ schedCapacityScale
  stored : ∀ g eff stack, s.walker = .store g eff stack → ∀ x ∈ eff, x.2 ≤ schedCapacityScale
  sysctl : s.sysctlMin ≤ s.sysctlMax ∧ s.sysctlMax ≤ schedCapacityScale ∧
    s.sysctlMinRtDefault ≤ schedCapacityScale

section

omit [Fintype P] [DecidableEq P] [DecidableEq C] [DecidableEq G]

theorem uclampNone_le (id : ClampId) : uclampNone id ≤ schedCapacityScale := by
  cases id <;> simp [uclampNone]

theorem uclampSeSet_value_le {ucSe : UclampSe} {value : ℕ} {userDefined : Bool}
    (h : value ≤ schedCapacityScale) :
    (uclampSeSet K ucSe value userDefined).value ≤ schedCapacityScale :=
  (wf_uclampSeSet h).value_le

theorem capacityFromPercent_util {input : UclampInput} {req : UclampRequest}
    (h : capacityFromPercent input = some req) : req.util ≤ schedCapacityScale := by
  cases input with
  | max =>
      obtain rfl := Option.some.inj h
      exact le_rfl
  | percent value =>
      simp only [capacityFromPercent] at h
      split_ifs at h with hlarge
      obtain rfl := Option.some.inj h
      simp only [schedCapacityScale]
      omega

theorem State.capped_le_req (s : State P C G) (g : G) (id : ClampId) :
    s.capped g id ≤ ((s.group g).uclampReq id).value := by
  simp only [State.capped]
  split
  · exact le_rfl
  · split_ifs with hlt
    · exact hlt.le
    · exact le_rfl

theorem State.eff_le_req (s : State P C G) (g : G) (id : ClampId) :
    s.eff g id ≤ ((s.group g).uclampReq id).value := by
  cases id with
  | min => exact (min_le_left _ _).trans (s.capped_le_req g .min)
  | max => exact s.capped_le_req g .max

theorem State.mem_clamps {s : State P C G} {x : ClampId × ℕ} :
    x ∈ s.clamps g ↔ x.2 = s.eff g x.1 ∧ x.2 ≠ ((s.group g).uclamp x.1).value := by
  obtain ⟨id, value⟩ := x
  simp only [State.clamps, List.mem_filterMap, Option.ite_none_left_eq_some, Option.some.injEq,
    Prod.mk.injEq]
  constructor
  · rintro ⟨_, -, hne, rfl, rfl⟩
    exact ⟨rfl, hne⟩
  · rintro ⟨rfl, hne⟩
    exact ⟨id, by cases id <;> simp, hne, rfl, rfl⟩

theorem Ranges.congr (h : Ranges K s) (hs : SameGroups s s') : Ranges K s' where
  default := hs.uclampDefault ▸ h.default
  groupReq := hs.group ▸ h.groupReq
  groupEff := hs.group ▸ h.groupEff
  stored := hs.walker ▸ h.stored
  sysctl := by
    rw [hs.sysctlMin, hs.sysctlMax, hs.sysctlMinRtDefault]
    exact h.sysctl

theorem Ranges.setGroup [DecidableEq G] (h : Ranges K s) {tg : TaskGroup G} {walker : Walker P G}
    (u : Bool) (hreq : ∀ id, (tg.uclampReq id).value ≤ schedCapacityScale)
    (heff : ∀ id, (tg.uclamp id).value ≤ schedCapacityScale)
    (hstored : ∀ g eff stack, walker = .store g eff stack → ∀ x ∈ eff, x.2 ≤ schedCapacityScale) :
    Ranges K { s.setGroup g tg with walker := walker, schedUclampUsed := u } where
  default := h.default
  groupReq x id := by
    by_cases hx : x = g
    · simpa [State.setGroup, hx] using hreq id
    · simpa [State.setGroup, hx] using h.groupReq x id
  groupEff x id := by
    by_cases hx : x = g
    · simpa [State.setGroup, hx] using heff id
    · simpa [State.setGroup, hx] using h.groupEff x id
  stored := hstored
  sysctl := h.sysctl

/-- The walker alone. -/
theorem Ranges.setWalker (h : Ranges K s) {walker : Walker P G}
    (hstored : ∀ g eff stack, walker = .store g eff stack → ∀ x ∈ eff, x.2 ≤ schedCapacityScale) :
    Ranges K { s with walker := walker } :=
  ⟨h.default, h.groupReq, h.groupEff, hstored, h.sysctl⟩

end

omit [DecidableEq C] in
theorem Ranges.utilUpdateEff (h : Ranges K s) (hs : s.utilUpdateEff K = some s') :
    Ranges K s' := by
  simp only [State.utilUpdateEff] at hs
  split at hs
  · cases hs
  · cases hs
    exact h.setWalker (by simp)
  · split_ifs at hs <;> cases hs
    · exact h.setWalker (by simp)
    · refine h.setWalker ?_
      rintro _ _ _ ⟨⟩ x hx
      rw [(State.mem_clamps.mp hx).1]
      exact (s.eff_le_req _ _).trans (h.groupReq _ _)
  · rename_i g id value eff stack hw
    cases hs
    refine h.setGroup s.schedUclampUsed (h.groupReq g) (fun id' ↦ ?_) ?_
    · by_cases hid : id' = id
      · subst hid
        simp only [Function.update_self]
        exact (Nat.mod_le _ _).trans (h.stored _ _ _ hw (id', value) (by simp))
      · simpa [Function.update_of_ne hid] using h.groupEff g id'
    · rintro _ _ _ ⟨⟩ x hx
      exact h.stored _ _ _ hw x (by simp [hx])
  · cases hs
    exact h.setWalker (by simp)
  · split_ifs at hs
    cases hs
    exact h.setWalker (by simp)

omit [Fintype P] [DecidableEq P] [DecidableEq C] in
theorem Ranges.sysctlHandler (h : Ranges K s) (which : Sysctl) (value : ℕ) :
    Ranges K (s.sysctlSchedUclampHandler K root which value) := by
  obtain ⟨hle, hmax, hrt⟩ := h.sysctl
  have hdefault : ∀ id v, v ≤ schedCapacityScale → ∀ id',
      (update s.uclampDefault id (uclampSeSet K (s.uclampDefault id) v false) id').Wf K := by
    intro id v hv id'
    by_cases hid : id' = id
    · subst hid
      simpa using wf_uclampSeSet hv
    · simpa [hid] using h.default id'
  rcases sysctlSchedUclampHandler_cases K root s which value with
    heq | ⟨hv, -, heq⟩ | ⟨hlo, hv, -, heq⟩ | ⟨hv, heq⟩ <;> rw [heq]
  · exact h
  · have hs : Ranges K ({ s with sysctlMin := value }.setDefault K .min value) :=
      ⟨hdefault .min value (hv.trans hmax), h.groupReq, h.groupEff, h.stored, hv, hmax, hrt⟩
    refine hs.setGroup true ?_ (h.groupEff root) (by simp)
    rintro (_ | _)
    · exact uclampSeSet_value_le (hv.trans hmax)
    · exact uclampSeSet_value_le hmax
  · have hs : Ranges K ({ s with sysctlMax := value }.setDefault K .max value) :=
      ⟨hdefault .max value hv, h.groupReq, h.groupEff, h.stored, hlo, hv, hrt⟩
    refine hs.setGroup true ?_ (h.groupEff root) (by simp)
    rintro (_ | _)
    · exact uclampSeSet_value_le (hlo.trans hv)
    · exact uclampSeSet_value_le hv
  · exact ⟨h.default, h.groupReq, h.groupEff, h.stored, hle, hmax, hv⟩

theorem Ranges.next (h : Ranges K s) (hs : next K root s l = some s') : Ranges K s' := by
  by_cases hl : l.onTask = true
  · exact h.congr (sameGroups_of_next hs hl)
  cases l with
  | cssAlloc g parent =>
      simp only [Uclamp.next] at hs
      split_ifs at hs
      cases hs
      exact h.setGroup s.schedUclampUsed
        (fun id ↦ uclampSeSet_value_le (uclampNone_le id)) (h.groupEff parent) h.stored
  | cssOnline g parent =>
      simp only [Uclamp.next] at hs
      split_ifs at hs
      cases hs
      have h₁ : Ranges K (s.setGroup g
          { s.group g with parent := some parent, children := [], online := true }) :=
        h.setGroup s.schedUclampUsed (h.groupReq g) (h.groupEff g) h.stored
      exact h₁.setGroup s.schedUclampUsed (h₁.groupReq parent) (h₁.groupEff parent)
        (by simp)
  | cssReleased g =>
      simp only [Uclamp.next] at hs
      split_ifs at hs
      cases hs
      have h₁ : Ranges K (s.setGroup g { s.group g with online := false }) :=
        h.setGroup s.schedUclampUsed (h.groupReq g) (h.groupEff g) h.stored
      simp only [State.releaseGroup]
      split
      · exact h₁
      · rename_i q _
        exact h₁.setGroup s.schedUclampUsed (h₁.groupReq q) (h₁.groupEff q) h.stored
  | uclampWrite g id input =>
      simp only [Uclamp.next] at hs
      split_ifs at hs
      obtain ⟨req, hreq, rfl⟩ := Option.map_eq_some_iff.mp hs
      refine h.setGroup true (fun id' ↦ ?_) (h.groupEff g) (by simp)
      simp only
      split_ifs
      · by_cases hid : id' = id
        · subst hid
          simpa using uclampSeSet_value_le (capacityFromPercent_util hreq)
        · simpa [hid] using h.groupReq g id'
      · exact h.groupReq g id'
  | sysctl which value =>
      simp only [Uclamp.next] at hs
      split_ifs at hs
      cases hs
      exact h.sysctlHandler which value
  | walk => exact h.utilUpdateEff hs
  | updateActive p =>
      simp only [Uclamp.next] at hs
      split at hs
      · split_ifs at hs
        cases hs
        exact (h.congr (OnlyClamps.updateActive K root s p).sameGroups).setWalker (by simp)
      · cases hs
  | _ => simp [Label.onTask] at hl

/-! ## Requests in range -/

/-- A caller of `sched_setattr` that asks for a clamp asks for `-1` or for a value on
the capacity scale. `uclamp_validate` compares as `int` and lets negative values pass. -/
def Label.InRange : Label P C G → Prop
  | .setscheduler _ attr _ _ _ => ∀ id : ClampId, attr.has id.flag = true →
      id.util attr ≠ -1 → (id.util attr).toNat ≤ schedCapacityScale
  | _ => True

section

omit [Fintype P] [DecidableEq P] [DecidableEq C] [DecidableEq G]

theorem clamp_le (value lo hi : ℕ) : clamp value lo hi ≤ hi := min_le_right _ _

theorem Ranges.effGet [DecidableEq G] (h : Ranges K s) (root : G)
    (hreq : ∀ id, ((s.task p).uclampReq id).Wf K) (id : ClampId) :
    (uclampEffGet K root s p id).Wf K := by
  have hrestrict : (uclampTgRestrict K root s p id).Wf K := by
    simp only [uclampTgRestrict]
    split
    · exact hreq id
    · split_ifs
      · exact hreq id
      · exact wf_uclampSeSet ((clamp_le _ _ _).trans (h.groupEff _ .max))
  simp only [uclampEffGet]
  split_ifs
  · exact h.default id
  · exact hrestrict

theorem setschedulerClamp_wf {minRtDefault : ℕ} {rt : Bool} {attr : SchedAttr} {ucSe : UclampSe}
    (hrt : minRtDefault ≤ schedCapacityScale) (hse : ucSe.Wf K)
    (hattr : attr.has id.flag = true → id.util attr ≠ -1 →
      (id.util attr).toNat ≤ schedCapacityScale) :
    (setschedulerClamp K minRtDefault rt attr id ucSe).Wf K := by
  simp only [setschedulerClamp, Bool.and_eq_true, decide_eq_true_eq]
  by_cases hset : attr.has id.flag = true ∧ id.util attr ≠ -1
  · rw [if_pos hset]
    exact wf_uclampSeSet (hattr hset.1 hset.2)
  rw [if_neg hset]
  split_ifs
  · exact wf_uclampSeSet hrt
  · exact wf_uclampSeSet (uclampNone_le id)
  · exact hse

theorem uclampFork_wf {t : Task C G} (h : ∀ id, (t.uclampReq id).Wf K) (id : ClampId) :
    ((uclampFork K t).uclampReq id).Wf K := by
  simp only [uclampFork]
  split_ifs
  · exact h id
  · exact wf_uclampSeSet (uclampNone_le id)

theorem updateUtilMinRtDefault_wf {minRtDefault : ℕ} {t : Task C G}
    (hrt : minRtDefault ≤ schedCapacityScale) (h : ∀ id, (t.uclampReq id).Wf K) (id : ClampId) :
    ((__uclampUpdateUtilMinRtDefault K minRtDefault t).uclampReq id).Wf K := by
  simp only [__uclampUpdateUtilMinRtDefault]
  split_ifs
  · exact h id
  · by_cases hid : id = .min
    · subst hid
      simpa using wf_uclampSeSet hrt
    · simpa [hid] using h id

end

/-! ## Every step keeps the buckets right -/

structure Sound (K : Config) (s : State P C G) : Prop where
  ranges : Ranges K s
  reqs : ∀ p id, ((s.task p).uclampReq id).Wf K
  queued : ∀ p, (s.se .max p).active = true → (s.task p).onRq = true
  accounted : Accounted K s

omit [DecidableEq P] [DecidableEq G] in
theorem Sound.inactive (h : Sound K s) (hp : (s.task p).onRq = false) :
    (s.se .max p).active = false := by
  by_contra hne
  simp [h.queued p (Bool.not_eq_false _ ▸ hne)] at hp

omit [DecidableEq P] [DecidableEq G] in
/-- One task has changed; its buckets are looked at apart. -/
theorem Sound.of_task (h : Sound K s) (hs : SameGroups s s') (ha : Accounted K s')
    (hother : ∀ q ≠ p, (s'.task q).uclampReq = (s.task q).uclampReq ∧
      (s'.task q).onRq = (s.task q).onRq ∧ s'.se .max q = s.se .max q)
    (hreq : ∀ id, ((s'.task p).uclampReq id).Wf K)
    (hp : (s'.se .max p).active = true → (s'.task p).onRq = true) : Sound K s' where
  ranges := h.ranges.congr hs
  reqs q := by
    by_cases hq : q = p
    · exact hq ▸ hreq
    · rw [(hother q hq).1]
      exact h.reqs q
  queued q := by
    by_cases hq : q = p
    · exact hq ▸ hp
    · rw [(hother q hq).2.1, (hother q hq).2.2]
      exact h.queued q
  accounted := ha

omit [DecidableEq G] in
/-- A change of a task that its run queue does not see. -/
theorem Sound.setTask (h : Sound K s) {t : Task C G}
    (hreq : ∀ id, (t.uclampReq id).Wf K)
    (hoff : ((s.se .max p).active = false ∧ ∀ id, (t.uclamp id).active = false) ∨
      t.uclamp = (s.task p).uclamp ∧ t.cpu = (s.task p).cpu ∧
        t.uclampEnabled = (s.task p).uclampEnabled ∧ t.onRq = (s.task p).onRq) :
    Sound K (s.setTask p t) := by
  have ha := h.accounted.setTask (hoff.imp_right fun ho ↦ ⟨ho.1, ho.2.1, ho.2.2.1⟩)
  refine h.of_task (p := p) (.setTask s p t) ha (fun q hq ↦ ?_) ?_ ?_
  · simp [State.se, State.setTask, hq]
  · simpa [State.setTask] using hreq
  · simp only [State.se, State.setTask, Function.update_self]
    rcases hoff with ⟨-, ht⟩ | ⟨hu, -, -, hon⟩
    · simp [ht]
    · rw [hu, hon]
      exact h.queued p

omit [DecidableEq P] [DecidableEq G] in
theorem Sound.of_onlyClamps (h : Sound K s) (ho : OnlyClamps p s s') (ha : Accounted K s')
    (hp : (s'.se .max p).active = true → (s.task p).onRq = true) : Sound K s' := by
  have htask : ∀ q, (s'.task q).uclampReq = (s.task q).uclampReq ∧
      (s'.task q).onRq = (s.task q).onRq := fun q ↦ by
    obtain ⟨u, hu⟩ := ho.task q
    rw [hu]
    exact ⟨rfl, rfl⟩
  refine h.of_task ho.sameGroups ha (fun q hq ↦ ⟨(htask q).1, (htask q).2, ho.se .max q hq⟩) ?_ ?_
  · rw [(htask p).1]
    exact h.reqs p
  · rw [(htask p).2]
    exact hp

omit [DecidableEq G] in
theorem Sound.rqDec (h : Sound K s) (p : P) :
    Sound K (s.uclampRqDec K p) ∧ ∀ id, ((s.uclampRqDec K p).se id p).active = false := by
  obtain ⟨ha, hoff⟩ := h.accounted.rqDec p
  exact ⟨h.of_onlyClamps (.rqDec K s p) ha fun hp ↦ by simp [hoff] at hp, hoff⟩

theorem Sound.rqInc (h : Sound K s) (hoff : (s.se .max p).active = false)
    (hon : (s.task p).onRq = true) : Sound K (s.uclampRqInc K root p) :=
  h.of_onlyClamps (.rqInc K root s p)
    (h.accounted.rqInc hoff fun id ↦ h.ranges.effGet root (h.reqs p) id) fun _ ↦ hon

/-- A change under `task_rq_lock`. -/
theorem Sound.change (h : Sound K s) {f : Task C G → Task C G}
    (hf : ∀ t, (f t).uclamp = t.uclamp ∧ (f t).onRq = t.onRq)
    (hreq : ∀ t : Task C G, (∀ id, (t.uclampReq id).Wf K) → ∀ id, ((f t).uclampReq id).Wf K) :
    Sound K (s.change K root p f) := by
  simp only [State.change]
  split_ifs with hon
  · obtain ⟨h₁, hoff⟩ := h.rqDec p
    have h₂ : Sound K ((s.uclampRqDec K p).setTask p (f ((s.uclampRqDec K p).task p))) :=
      h₁.setTask (hreq _ (h₁.reqs p)) (.inl ⟨hoff .max, fun id ↦ by rw [(hf _).1]; exact hoff id⟩)
    refine h₂.rqInc ?_ ?_
    · simpa [State.se, State.setTask, hf] using hoff .max
    · obtain ⟨u, hu⟩ := (OnlyClamps.rqDec K s p).task p
      simpa [State.setTask, hf, hu] using hon
  · have hoff := h.inactive (p := p) (by simpa using hon)
    refine h.setTask (hreq _ (h.reqs p)) (.inl ⟨hoff, fun id ↦ ?_⟩)
    rw [(hf _).1, ← hoff]
    exact h.accounted.active_iff id p

/-- `activate_task` sets `on_rq` after the buckets. -/
theorem Sound.activate (h : Sound K s) (hon : (s.task p).onRq = false) (c : C) :
    Sound K (s.activateTask K root c p) := by
  have hoff := h.inactive hon
  set s₀ := s.setTask p { s.task p with cpu := c } with hs₀
  have h₀ : Sound K s₀ := h.setTask (h.reqs p)
    (.inl ⟨hoff, fun id ↦ (h.accounted.active_iff id p).trans hoff⟩)
  have hoff₀ : (s₀.se .max p).active = false := by
    simpa [hs₀, State.se, State.setTask] using hoff
  have ha := h₀.accounted.rqInc hoff₀ fun id ↦ h₀.ranges.effGet root (h₀.reqs p) id
  have ho := OnlyClamps.rqInc K root s₀ p
  obtain ⟨u, hu⟩ := ho.task p
  set s₁ := s₀.uclampRqInc K root p
  have hs : s.activateTask K root c p = s₁.setTask p { s₁.task p with onRq := true } := rfl
  rw [hs]
  refine h₀.of_task (p := p) (ho.sameGroups.trans (.setTask _ p _))
    (ha.setTask (.inr ⟨rfl, rfl, rfl⟩)) (fun q hq ↦ ?_) ?_ ?_
  · obtain ⟨v, hv⟩ := ho.task q
    have hse : ((s₁.task q).uclamp .max) = (s₀.task q).uclamp .max := ho.se .max q hq
    rw [hv] at hse
    simp [State.setTask, State.se, hq, hse, hv]
  · simpa [State.setTask, hu] using h₀.reqs p
  · simp [State.setTask]

omit [DecidableEq G] in
theorem Sound.deactivate (h : Sound K s) (p : P) : Sound K (s.deactivateTask K p) := by
  set s₀ := s.setTask p { s.task p with onRq := false } with hs₀
  have ha₀ : Accounted K s₀ := h.accounted.setTask (.inr ⟨rfl, rfl, rfl⟩)
  obtain ⟨ha, hoff⟩ := ha₀.rqDec p
  have ho := OnlyClamps.rqDec K s₀ p
  refine h.of_task (p := p) ((SameGroups.setTask s p _).trans ho.sameGroups) ha
    (fun q hq ↦ ?_) ?_ fun hp ↦ ?_
  · obtain ⟨v, hv⟩ := ho.task q
    have hse := ho.se .max q hq
    simp only [State.deactivateTask, ← hs₀]
    rw [hse, hv]
    simp [hs₀, State.setTask, State.se, hq]
  · obtain ⟨v, hv⟩ := ho.task p
    simp only [State.deactivateTask, ← hs₀, hv]
    simpa [hs₀, State.setTask] using h.reqs p
  · rw [State.deactivateTask, hoff] at hp
    simp at hp

omit [DecidableEq P] [DecidableEq G] in
theorem Sound.congr_tasks (h : Sound K s) (hr : Ranges K s') (htask : s'.task = s.task)
    (hrq : s'.rq = s.rq) (hused : s.schedUclampUsed = true → s'.schedUclampUsed = true) :
    Sound K s' where
  ranges := hr
  reqs := htask ▸ h.reqs
  queued p hp := by
    simp only [State.se, htask] at hp ⊢
    exact h.queued p hp
  accounted := h.accounted.congr htask hrq hused

theorem Sound.next (h : Sound K s) (hl : l.InRange) (hs : next K root s l = some s') :
    Sound K s' := by
  by_cases hgroup : l.onGroup = true
  · obtain ⟨htask, hrq, hused⟩ := sameTasks_of_next hs hgroup
    exact h.congr_tasks (h.ranges.next hs) htask hrq hused
  cases l with
  | activate c p =>
      simp only [Uclamp.next] at hs
      split_ifs at hs with hon
      cases hs
      exact h.activate (by simpa using hon) c
  | deactivate p =>
      simp only [Uclamp.next] at hs
      split_ifs at hs with hon
      cases hs
      exact h.deactivate p
  | setprio p rt enabled =>
      cases hs
      exact h.change (fun t ↦ ⟨rfl, rfl⟩) fun t ht ↦ ht
  | setscheduler p attr reset rt enabled =>
      cases hs
      have hs' : Sound K
          { s with schedUclampUsed := s.schedUclampUsed || attr.has schedFlagUtilClamp } :=
        h.congr_tasks (h.ranges.congr ⟨rfl, rfl, rfl, rfl, rfl, rfl⟩) rfl rfl fun hu ↦ by simp [hu]
      exact hs'.change (fun t ↦ ⟨rfl, rfl⟩) fun t ht id ↦
        setschedulerClamp_wf h.ranges.sysctl.2.2 (ht id) (hl id)
  | updateUtilMinRtDefault p =>
      simp only [Uclamp.next] at hs
      split_ifs at hs
      cases hs
      refine h.setTask (updateUtilMinRtDefault_wf h.ranges.sysctl.2.2 (h.reqs p)) (.inr ?_)
      simp only [__uclampUpdateUtilMinRtDefault]
      split_ifs <;> exact ⟨rfl, rfl, rfl, rfl⟩
  | fork p child tg rt enabled =>
      simp only [Uclamp.next] at hs
      split_ifs at hs with hon
      cases hs
      push Not at hon
      refine h.setTask (uclampFork_wf (h.reqs p)) (.inl ⟨h.inactive (by simpa using hon.1), ?_⟩)
      simp only [schedChangeGroup, uclampFork]
      split_ifs <;> simp
  | migrateCss p g =>
      simp only [Uclamp.next] at hs
      split_ifs at hs
      cases hs
      exact h.setTask (h.reqs p) (.inr ⟨rfl, rfl, rfl, rfl⟩)
  | moveTask p tg =>
      simp only [Uclamp.next] at hs
      split_ifs at hs
      cases hs
      exact h.change (fun t ↦ ⟨rfl, rfl⟩) fun t ht ↦ ht
  | updateActive p =>
      simp only [Uclamp.next] at hs
      split at hs
      · split_ifs at hs
        cases hs
        have ho := OnlyClamps.updateActive K root s p
        have ha := h.accounted.updateActive fun id ↦ h.ranges.effGet root (h.reqs p) id
        have h' : Sound K (s.uclampUpdateActive K root p) := h.of_onlyClamps ho ha fun hp ↦ by
          by_contra hon
          have hoff := h.inactive (p := p) (by simpa using hon)
          rw [h.accounted.updateActive_of_inactive hoff, hoff] at hp
          simp at hp
        exact h'.congr_tasks (h'.ranges.setWalker (by simp)) rfl rfl fun hu ↦ hu
      · cases hs
  | _ => simp [Label.onGroup] at hgroup

theorem Sound.step (h : Sound K s) (hl : l.InRange) : Sound K (step K root s l) := by
  rw [Uclamp.step]
  cases hs : Uclamp.next K root s l with
  | none => exact h
  | some s' => exact h.next hl hs

omit [DecidableEq P] in
theorem sound_init (K : Config) (root : G) (boot : C) :
    Sound K (State.init K root boot : State P C G) where
  ranges :=
    { default := fun _ ↦ wf_uclampSeSet (uclampNone_le .max)
      groupReq := fun _ _ ↦ uclampSeSet_value_le (uclampNone_le .max)
      groupEff := fun _ _ ↦ uclampSeSet_value_le (uclampNone_le .max)
      stored := by simp [State.init]
      sysctl := ⟨le_rfl, le_rfl, le_rfl⟩ }
  reqs _ id := wf_uclampSeSet (uclampNone_le id)
  queued p hp := by simp [State.se, State.init] at hp
  accounted :=
    { tracks := fun c id ↦
        { wf := by simp [State.on, State.se, State.init]
          tasks := by simp [State.init, initUclampRq, inBucket, State.on, State.se]
          placed := by simp [State.init, initUclampRq]
          le_bucket := by simp [State.on, State.se, State.init]
          bucket_le := by simp [State.init, initUclampRq]
          attained := by simp [State.on, State.se, State.init] }
      idle := by simp [State.init, initUclampRq, State.on, State.se]
      quiet := by simp [State.init, initUclampRq]
      same := by simp [State.se, State.init]
      used := by simp [State.se, State.init] }

/-! ## Which tasks are accounted -/

/-- The static key is on, and `p` is accounted if it is queued in a class with clamps. -/
structure State.Covers (s : State P C G) (p : P) : Prop where
  used : s.schedUclampUsed = true
  active : (s.task p).onRq = true → (s.task p).uclampEnabled = true →
    (s.se .max p).active = true

section Covers

omit [Fintype P] [DecidableEq P] [DecidableEq C] [DecidableEq G]

theorem State.Covers.congr (h : s.Covers p) (hused : s'.schedUclampUsed = true)
    (hon : (s'.task p).onRq = (s.task p).onRq)
    (henabled : (s'.task p).uclampEnabled = (s.task p).uclampEnabled)
    (hse : s'.se .max p = s.se .max p) : s'.Covers p := by
  refine ⟨hused, ?_⟩
  rw [hon, henabled, hse]
  exact h.active

theorem State.Covers.of_onlyClamps (h : s.Covers p) (ho : OnlyClamps q s s') (hne : p ≠ q) :
    s'.Covers p := by
  obtain ⟨u, hu⟩ := ho.task p
  exact h.congr (by rw [ho.rest]; exact h.used) (by rw [hu]) (by rw [hu]) (ho.se .max p hne)

theorem covers_of_onRq (hused : s.schedUclampUsed = true) (hon : (s.task p).onRq = false) :
    s.Covers p :=
  ⟨hused, fun h ↦ by simp [hon] at h⟩

variable [DecidableEq P]

theorem State.Covers.setTask_of_ne (h : s.Covers p) (hne : p ≠ q) (t : Task C G) :
    (s.setTask q t).Covers p :=
  h.congr h.used (by simp [State.setTask, hne]) (by simp [State.setTask, hne])
    (by simp [State.se, State.setTask, hne])

variable [DecidableEq C] [DecidableEq G]

/-- `enqueue_task`. -/
theorem uclampRqInc_active (hused : s.schedUclampUsed = true)
    (henabled : (s.task p).uclampEnabled = true) :
    ((s.uclampRqInc K root p).se .max p).active = true := by
  rw [uclampRqInc_se, if_pos ⟨hused, henabled⟩]

theorem State.Covers.change (h : s.Covers p) {f : Task C G → Task C G}
    (hf : ∀ t, (f t).onRq = t.onRq) : (s.change K root q f).Covers p := by
  have ho := OnlyClamps.rqDec K s q
  have ho' := OnlyClamps.rqInc K root
    ((s.uclampRqDec K q).setTask q (f ((s.uclampRqDec K q).task q))) q
  simp only [State.change]
  split_ifs with hon <;> by_cases hne : p = q
  · subst hne
    have hused : (s.uclampRqDec K p).schedUclampUsed = true := by rw [ho.rest]; exact h.used
    refine ⟨by rw [ho'.rest]; exact hused, fun _ henabled ↦ uclampRqInc_active hused ?_⟩
    obtain ⟨u, hu⟩ := ho'.task p
    rwa [hu] at henabled
  · exact ((h.of_onlyClamps ho hne).setTask_of_ne hne _).of_onlyClamps ho' hne
  · subst hne
    exact covers_of_onRq h.used (by simpa [State.setTask, hf] using hon)
  · exact h.setTask_of_ne hne _

theorem State.Covers.activate (h : s.Covers p) (c : C) (q : P) :
    (s.activateTask K root c q).Covers p := by
  set s₀ := s.setTask q { s.task q with cpu := c } with hs₀
  have ho := OnlyClamps.rqInc K root s₀ q
  have hs : s.activateTask K root c q = (s₀.uclampRqInc K root q).setTask q
    { (s₀.uclampRqInc K root q).task q with onRq := true } := rfl
  rw [hs]
  by_cases hne : p = q
  · subst hne
    obtain ⟨u, hu⟩ := ho.task p
    refine ⟨?_, fun _ henabled ↦ ?_⟩
    · have hused : (s₀.uclampRqInc K root p).schedUclampUsed = s₀.schedUclampUsed := by rw [ho.rest]
      exact hused.trans h.used
    · have hact : ((s₀.uclampRqInc K root p).se .max p).active = true := by
        refine uclampRqInc_active h.used ?_
        simpa [State.setTask, hu] using henabled
      simpa [State.se, State.setTask] using hact
  · exact ((h.setTask_of_ne hne _).of_onlyClamps ho hne).setTask_of_ne hne _

end Covers

/-- Once the static key is on, every `enqueue_task` accounts its task. -/
theorem State.Covers.next (h : s.Covers p) (hs : next K root s l = some s') : s'.Covers p := by
  by_cases hgroup : l.onGroup = true
  · obtain ⟨htask, -, hused⟩ := sameTasks_of_next hs hgroup
    exact h.congr (hused h.used) (by rw [htask]) (by rw [htask]) (by rw [State.se, htask]; rfl)
  cases l with
  | activate c q =>
      simp only [Uclamp.next] at hs
      split_ifs at hs
      cases hs
      exact h.activate c q
  | deactivate q =>
      simp only [Uclamp.next] at hs
      split_ifs at hs
      cases hs
      have ho := OnlyClamps.rqDec K (s.setTask q { s.task q with onRq := false }) q
      by_cases hne : p = q
      · subst hne
        obtain ⟨u, hu⟩ := ho.task p
        refine covers_of_onRq ?_ ?_
        · rw [State.deactivateTask, ho.rest]
          exact h.used
        · rw [State.deactivateTask, hu]
          simp [State.setTask]
      · exact (h.setTask_of_ne hne _).of_onlyClamps ho hne
  | setprio q rt enabled =>
      cases hs
      exact h.change fun _ ↦ rfl
  | setscheduler q attr reset rt enabled =>
      cases hs
      have hs' : State.Covers
          { s with schedUclampUsed := s.schedUclampUsed || attr.has schedFlagUtilClamp } p :=
        h.congr (by simp [h.used]) rfl rfl rfl
      exact hs'.change fun _ ↦ rfl
  | updateUtilMinRtDefault q =>
      simp only [Uclamp.next] at hs
      split_ifs at hs
      cases hs
      by_cases hne : p = q
      · subst hne
        refine h.congr h.used ?_ ?_ ?_ <;>
          simp only [State.se, State.setTask, Function.update_self,
            __uclampUpdateUtilMinRtDefault] <;> split_ifs <;> rfl
      · exact h.setTask_of_ne hne _
  | fork q child tg rt enabled =>
      simp only [Uclamp.next] at hs
      split_ifs at hs
      cases hs
      by_cases hne : p = child
      · subst hne
        exact covers_of_onRq h.used (by simp [State.setTask, schedChangeGroup])
      · exact h.setTask_of_ne hne _
  | migrateCss q g =>
      simp only [Uclamp.next] at hs
      split_ifs at hs
      cases hs
      by_cases hne : p = q
      · subst hne
        exact h.congr h.used (by simp [State.setTask]) (by simp [State.setTask])
          (by simp [State.se, State.setTask])
      · exact h.setTask_of_ne hne _
  | moveTask q tg =>
      simp only [Uclamp.next] at hs
      split_ifs at hs
      cases hs
      exact h.change fun _ ↦ rfl
  | updateActive q =>
      simp only [Uclamp.next] at hs
      split at hs
      · split_ifs at hs
        cases hs
        have ho := OnlyClamps.updateActive K root s q
        have hcovers : (s.uclampUpdateActive K root q).Covers p := by
          by_cases hne : p = q
          · subst hne
            obtain ⟨u, hu⟩ := ho.task p
            refine ⟨by rw [ho.rest]; exact h.used, ?_⟩
            rw [uclampUpdateActive_se, hu]
            intro hon henabled
            rw [if_pos (h.active hon henabled)]
          · exact h.of_onlyClamps ho hne
        exact hcovers.congr hcovers.used rfl rfl rfl
      · cases hs
  | _ => simp [Label.onGroup] at hgroup

theorem State.Covers.step (h : s.Covers p) (l : Label P C G) : (step K root s l).Covers p := by
  rw [Uclamp.step]
  cases hs : Uclamp.next K root s l with
  | none => exact h
  | some s' => exact h.next hs

/-! ## The clamps of a run queue -/

/-- What the clamps of the run queue of `c` say about the tasks that are accounted there. -/
structure State.Aggregates (K : Config) (s : State P C G) (c : C) : Prop where
  queued : ∀ id p, s.on c id p = true →
    (s.task p).onRq = true ∧ (s.task p).uclampEnabled = true ∧ s.schedUclampUsed = true
  counts : ∀ id b, (((s.rq c).uclamp id).bucket b).tasks =
    (Finset.univ.filter fun p ↦ s.on c id p = true ∧ (s.se id p).bucketId = b).card
  dominates : ∀ id p, s.on c id p = true → (s.se id p).value ≤ ((s.rq c).uclamp id).value
  near : ∀ id p, s.on c id p = true → ∃ q, s.on c id q = true ∧
    (s.se id q).bucketId = uclampBucketId K ((s.rq c).uclamp id).value ∧
    ((s.rq c).uclamp id).value - (s.se id q).value ≤ K.bucketDelta + K.buckets / 2
  idle : (s.rq c).flagIdle = true ↔ ∀ p, s.on c .max p = false
  quiet : (s.rq c).warned = false

omit [DecidableEq P] [DecidableEq G] in
theorem Sound.aggregates (h : Sound K s) (c : C) : s.Aggregates K c where
  queued id p hp := by
    have hact : (s.se .max p).active = true := by
      rw [← h.accounted.active_iff id]
      exact (State.on_eq_true_iff.mp hp).1
    exact ⟨h.queued p hact, h.accounted.used p hact⟩
  counts id b := by rw [(h.accounted.tracks c id).tasks, inBucket, Finset.card_filter]
  dominates id _ hp := (h.accounted.tracks c id).le hp
  near id _ hp := (h.accounted.tracks c id).exists_near hp
  idle := h.accounted.idle c
  quiet := h.accounted.quiet c

/-- In every state of every run: the tasks accounted on a run queue are queued there, in a class
with clamps; a bucket counts those in it; none of them has a larger effective clamp than its
run queue, and one of them is in the same bucket as it; the idle flag is set exactly while
nobody is accounted; and neither of the warnings of `uclamp_rq_dec_id` has fired. A task that
was off the run queues at some time after `sched_uclamp_used` went on is accounted exactly
while it is queued in a class with clamps. -/
theorem runQueue_clamp_aggregates (K : Config) (root : G) (boot : C) (ls : List (Label P C G))
    (hls : ∀ l ∈ ls, l.InRange) :
    AllStates (step K root) (fun s ↦ ∀ c, s.Aggregates K c) (State.init K root boot) ls ∧
    ∀ ls₁ ls₂ p, ls = ls₁ ++ ls₂ →
      (run (step K root) (State.init K root boot) ls₁).schedUclampUsed = true →
      ((run (step K root) (State.init K root boot) ls₁).task p).onRq = false →
      ∀ c id, let s := run (step K root) (State.init K root boot) ls
        s.on c id p = true ↔
          (s.task p).cpu = c ∧ (s.task p).onRq = true ∧ (s.task p).uclampEnabled = true := by
  have hinit := sound_init (P := P) K root boot
  have hsound : AllStates (step K root) (Sound K) (State.init K root boot) ls :=
    allStates_of_along (fun s l h hl ↦ h.step hl) hinit (along_of_forall hls)
  have hend : Sound K (run (step K root) (State.init K root boot) ls) :=
    run_of_along (fun s l h hl ↦ h.step hl) hinit (along_of_forall hls)
  refine ⟨hsound.imp fun s h c ↦ h.aggregates c, ?_⟩
  intro ls₁ ls₂ p hsplit hused hoff c id s
  have hcovers : s.Covers p := by
    have hs : s = run (step K root) (run (step K root) (State.init K root boot) ls₁) ls₂ := by
      rw [← run_append, ← hsplit]
    rw [hs]
    have hstep : ∀ (s : State P C G) (l : Label P C G), s.Covers p →
        (Uclamp.step K root s l).Covers p := fun _ l h ↦ h.step l
    exact run_of_step hstep (covers_of_onRq hused hoff) ls₂
  constructor
  · intro hon
    have hq := (hend.aggregates c).queued id p hon
    exact ⟨(State.on_eq_true_iff.mp hon).2, hq.1, hq.2.1⟩
  · rintro ⟨hcpu, hon, henabled⟩
    refine State.on_eq_true_iff.mpr ⟨?_, hcpu⟩
    rw [hend.accounted.active_iff]
    exact hcovers.active hon henabled

def fiveBuckets : Config := ⟨5, by decide, by decide⟩

/-- A request for the utilization range `[lo, hi]`. -/
def clampAttr (lo hi : BitVec 32) : SchedAttr :=
  { schedPolicy := 0
    schedFlags := schedFlagUtilClamp
    schedNice := 0
    schedPriority := 0
    schedRuntime := 0
    schedDeadline := 0
    schedPeriod := 0
    schedUtilMin := lo
    schedUtilMax := hi }

/-- Two tasks in one bucket, the larger of which leaves first. -/
def boostedRun : List (Label Bool Unit Unit) :=
  [.setscheduler false (clampAttr 300 800) false false true, .activate () false,
    .setscheduler true (clampAttr 210 700) false false true, .activate () true, .deactivate false]

theorem runQueue_clamp_aggregates_boosted :
    (∀ l ∈ boostedRun, l.InRange) ∧
      AllStates (step fiveBuckets ()) (fun s ↦ ∀ c, s.Aggregates fiveBuckets c)
        (State.init fiveBuckets () ()) boostedRun ∧
      (run (step fiveBuckets ()) (State.init fiveBuckets () ()) boostedRun).on () .min true = true ∧
      (run (step fiveBuckets ()) (State.init fiveBuckets () ()) boostedRun).on () .min false =
        false := by
  have hrange : ∀ l ∈ boostedRun, l.InRange := by
    simp only [boostedRun, List.mem_cons, List.not_mem_nil, or_false, forall_eq_or_imp, forall_eq,
      Label.InRange]
    refine ⟨?_, trivial, ?_, trivial, trivial⟩ <;> rintro (_ | _) <;> decide
  obtain ⟨haggregates, haccounted⟩ := runQueue_clamp_aggregates fiveBuckets () () boostedRun hrange
  -- both tasks were off the run queue after the first call, which turned the static key on
  have hiff := fun p ↦ haccounted (boostedRun.take 1) (boostedRun.drop 1) p rfl (by decide)
    (by cases p <;> decide) () .min
  exact ⟨hrange, haggregates, (hiff true).mpr (by decide),
    Bool.eq_false_iff.mpr fun hon ↦ absurd ((hiff false).mp hon) (by decide)⟩

/-- A real-time task is queued when the first request turns the static key on. -/
def lateKeyRun : List (Label Bool Unit Unit) :=
  [.setscheduler true { clampAttr 0 0 with schedFlags := 0 } false true true, .activate () true,
    .setscheduler false (clampAttr 300 800) false false true, .activate () false]

-- until it is next enqueued it is in no bucket, and the run queue does not know its clamp
example :
    let s := run (step fiveBuckets ()) (State.init fiveBuckets () ()) lateKeyRun
    (s.task true).onRq = true ∧ s.on () .min true = false ∧
      uclampEffValue fiveBuckets () s true .min = 1024 ∧ ((s.rq ()).uclamp .min).value = 300 := by
  decide +kernel

/-- A task that was granted a negative minimum sits in the last bucket with the value 0. -/
def negativeRun : List (Label (Option Bool) Unit Unit) :=
  [.setscheduler none (clampAttr (-2048) 1024) false false true, .activate () none,
    .setscheduler (some false) (clampAttr 500 1024) false false true, .activate () (some false),
    .setscheduler (some true) (clampAttr 300 1024) false false true, .activate () (some true),
    .deactivate (some false)]

-- without the range the run queue loses sight of its third task
example :
    (((run (step fiveBuckets ()) (State.init fiveBuckets () ()) negativeRun).rq ()).uclamp
      .min).value = 0 ∧
    ((run (step fiveBuckets ()) (State.init fiveBuckets () ()) negativeRun).se .min
      (some true)).value = 300 ∧
    ((run (step fiveBuckets ()) (State.init fiveBuckets () ())
      (negativeRun ++ [.deactivate (some true)])).rq ()).warned = true := by
  decide +kernel

end NcuKernel.Uclamp
