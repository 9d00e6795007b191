import NcuKernel.Uclamp.System

/-!
# Accounting a task on a run queue

`enqueue_task`, `dequeue_task` and `uclamp_update_active` do for both clamps of a task
what `Buckets` does for one. The two share the idle flag, which the second sets and the
caller clears, so the clamps have to be followed together.
-/

namespace NcuKernel.Uclamp

open Runs
open Sched (ClampId SchedAttr schedCapacityScale uclampNone schedFlagUtilClamp)
open Function (update)

variable {P C G : Type*} [DecidableEq C] {K : Config} {root : G} {s s' : State P C G} {p q : P}
  {c : C} {id id' : ClampId}

/-! ## The tasks on a run queue -/

def State.se (s : State P C G) (id : ClampId) (p : P) : UclampSe := (s.task p).uclamp id

/-- `p` is refcounted by the run queue of `c`. -/
def State.on (s : State P C G) (c : C) (id : ClampId) (p : P) : Bool :=
  (s.se id p).active && (s.task p).cpu = c

theorem State.on_eq_true_iff :
    s.on c id p = true ↔ (s.se id p).active = true ∧ (s.task p).cpu = c := by
  simp [State.on]

theorem State.on_eq_false (h : (s.se id p).active = false) (c : C) : s.on c id p = false := by
  simp [State.on, h]

/-- From `s` to `s'` only the clamps of `p` and its run queue have changed. -/
structure OnlyClamps (p : P) (s s' : State P C G) : Prop where
  task : ∀ q, ∃ u, s'.task q = { s.task q with uclamp := u }
  se : ∀ id, ∀ q ≠ p, s'.se id q = s.se id q
  rq : ∀ c ≠ (s.task p).cpu, s'.rq c = s.rq c
  rest : s' = { s with task := s'.task, rq := s'.rq }

section OnlyClamps

variable {s'' : State P C G}

omit [DecidableEq C] in
theorem OnlyClamps.refl (p : P) (s : State P C G) : OnlyClamps p s s :=
  ⟨fun _ ↦ ⟨_, rfl⟩, fun _ _ _ ↦ rfl, fun _ _ ↦ rfl, rfl⟩

omit [DecidableEq C] in
theorem OnlyClamps.cpu (h : OnlyClamps p s s') (q : P) : (s'.task q).cpu = (s.task q).cpu := by
  obtain ⟨u, hu⟩ := h.task q
  rw [hu]

omit [DecidableEq C] in
theorem OnlyClamps.trans (h : OnlyClamps p s s') (h' : OnlyClamps p s' s'') :
    OnlyClamps p s s'' where
  task q := by
    obtain ⟨u, hu⟩ := h.task q
    obtain ⟨u', hu'⟩ := h'.task q
    exact ⟨u', by rw [hu', hu]⟩
  se id q hq := (h'.se id q hq).trans (h.se id q hq)
  rq c hc := (h'.rq c (by rwa [h.cpu])).trans (h.rq c hc)
  rest := by
    rw [h'.rest, h.rest]

theorem OnlyClamps.on_of_ne (h : OnlyClamps p s s') (hne : q ≠ p ∨ c ≠ (s.task p).cpu) :
    s'.on c id q = s.on c id q := by
  by_cases hq : q = p
  · subst hq
    simp [State.on, h.cpu, Ne.symm (hne.resolve_left (by simp))]
  · rw [State.on, State.on, h.se id q hq, h.cpu]

omit [DecidableEq C] in
theorem OnlyClamps.effGet [DecidableEq G] (h : OnlyClamps p s s') (K : Config) (root : G) (q : P)
    (id : ClampId) :
    uclampEffGet K root s' q id = uclampEffGet K root s q id := by
  obtain ⟨u, hu⟩ := h.task q
  have hgroup : s'.group = s.group := by rw [h.rest]
  have hdefault : s'.uclampDefault = s.uclampDefault := by rw [h.rest]
  simp only [Uclamp.uclampEffGet, uclampTgRestrict, hu, hgroup, hdefault]

theorem OnlyClamps.clearIdle (h : OnlyClamps p s s') :
    OnlyClamps p s (s'.clearIdle (s.task p).cpu) where
  task := h.task
  se := h.se
  rq c hc := by
    rw [← h.rq c hc]
    simp [State.clearIdle, hc]
  rest := by rw [h.rest]; rfl

variable [DecidableEq P] {r : Rq × UclampSe}

theorem putClamp_se : (s.putClamp p id r).se id p = r.2 := by
  simp [State.se, State.putClamp, State.setTask]

theorem putClamp_se_of_ne (h : q ≠ p ∨ id' ≠ id) : (s.putClamp p id r).se id' q = s.se id' q := by
  by_cases hq : q = p
  · subst hq
    simp [State.se, State.putClamp, State.setTask, h.resolve_left (by simp)]
  · simp [State.se, State.putClamp, State.setTask, hq]

theorem putClamp_rq : (s.putClamp p id r).rq (s.task p).cpu = r.1 := by
  simp [State.putClamp]

theorem OnlyClamps.putClamp (s : State P C G) (p : P) (id : ClampId) (r : Rq × UclampSe) :
    OnlyClamps p s (s.putClamp p id r) where
  task q := by
    by_cases hq : q = p
    · subst hq
      exact ⟨update (s.task q).uclamp id r.2, by simp [State.putClamp, State.setTask]⟩
    · exact ⟨(s.task q).uclamp, by simp [State.putClamp, State.setTask, hq]⟩
  se id' q hq := putClamp_se_of_ne (.inl hq)
  rq c hc := by simp [State.putClamp, hc]
  rest := rfl

theorem putClamp_on_of_ne (h : q ≠ p ∨ id' ≠ id) :
    (s.putClamp p id r).on c id' q = s.on c id' q := by
  rw [State.on, State.on, putClamp_se_of_ne h, (OnlyClamps.putClamp s p id r).cpu]

theorem putClamp_on :
    (s.putClamp p id r).on c id p = (r.2.active && (s.task p).cpu = c) := by
  rw [State.on, putClamp_se, (OnlyClamps.putClamp s p id r).cpu]

theorem OnlyClamps.rqDec (K : Config) (s : State P C G) (p : P) :
    OnlyClamps p s (s.uclampRqDec K p) := by
  unfold State.uclampRqDec
  split_ifs
  · exact .refl p s
  · exact .refl p s
  · exact (OnlyClamps.putClamp ..).trans (.putClamp ..)

variable [DecidableEq G]

theorem OnlyClamps.rqInc (K : Config) (root : G) (s : State P C G) (p : P) :
    OnlyClamps p s (s.uclampRqInc K root p) := by
  unfold State.uclampRqInc
  split_ifs
  · exact .refl p s
  · exact .refl p s
  · exact ((OnlyClamps.putClamp ..).trans (.putClamp ..)).clearIdle

theorem OnlyClamps.rqReincId (K : Config) (root : G) (s : State P C G) (p : P) (id : ClampId) :
    OnlyClamps p s (s.uclampRqReincId K root p id) := by
  have hboth : OnlyClamps p s ((s.uclampRqDecId K p id).uclampRqIncId K root p id) :=
    (OnlyClamps.putClamp ..).trans (.putClamp ..)
  simp only [State.uclampRqReincId]
  split_ifs
  · exact .refl p s
  · exact hboth.clearIdle
  · exact hboth

theorem OnlyClamps.updateActive (K : Config) (root : G) (s : State P C G) (p : P) :
    OnlyClamps p s (s.uclampUpdateActive K root p) :=
  (OnlyClamps.rqReincId K root s p .min).trans (.rqReincId K root _ p .max)

end OnlyClamps

variable [Fintype P]

def State.Tracks (K : Config) (s : State P C G) : Prop :=
  ∀ c id, Uclamp.Tracks K ((s.rq c).uclamp id) (s.on c id) (s.se id)

variable [DecidableEq P]

/-- A change of one clamp of one task and its run queue is a matter of that clamp of
that run queue. -/
theorem State.Tracks.putClamp (h : s.Tracks K) {r : Rq × UclampSe}
    (hother : ∀ id' ≠ id, r.1.uclamp id' = (s.rq (s.task p).cpu).uclamp id')
    (hself : Uclamp.Tracks K (r.1.uclamp id) ((s.putClamp p id r).on (s.task p).cpu id)
      ((s.putClamp p id r).se id)) : (s.putClamp p id r).Tracks K := by
  intro c id'
  by_cases hc : c = (s.task p).cpu
  · subst hc
    rw [putClamp_rq]
    by_cases hid : id' = id
    · subst hid
      exact hself
    · rw [hother id' hid]
      exact (h _ id').congr (fun q ↦ putClamp_on_of_ne (.inr hid)) fun q _ ↦ by
        rw [putClamp_se_of_ne (.inr hid)]
        exact ⟨rfl, rfl⟩
  · have hput := OnlyClamps.putClamp s p id r
    rw [hput.rq c hc]
    refine (h c id').congr (fun q ↦ hput.on_of_ne (.inr hc)) fun q hq ↦ ?_
    have hqp : q ≠ p := fun heq ↦ by simp [heq, State.on, Ne.symm hc] at hq
    rw [hput.se id' q hqp]
    exact ⟨rfl, rfl⟩

omit [DecidableEq P] in
theorem State.Tracks.clearIdle (h : s.Tracks K) : (s.clearIdle c).Tracks K := fun d id ↦ by
  have hrq : ((s.clearIdle c).rq d).uclamp = (s.rq d).uclamp := by
    by_cases hd : d = c <;> simp [State.clearIdle, hd]
  rw [hrq]
  exact h d id

omit [DecidableEq P] [Fintype P] in
theorem OnlyClamps.clearIdle_flag (h : OnlyClamps p s s') (hp : (s'.se .max p).active = true) :
    ((s'.clearIdle (s.task p).cpu).rq (s.task p).cpu).flagIdle = true ↔
      ∀ q, (s'.clearIdle (s.task p).cpu).on (s.task p).cpu .max q = false := by
  have hon : (s'.clearIdle (s.task p).cpu).on (s.task p).cpu .max p = true :=
    State.on_eq_true_iff.mpr ⟨hp, h.cpu p⟩
  refine iff_of_false (by simp [State.clearIdle]) fun hno ↦ ?_
  simp [hno p] at hon

/-- A refcounted task leaves its bucket. -/
theorem State.Tracks.dec (h : s.Tracks K) (hactive : (s.se id p).active = true) :
    (s.uclampRqDecId K p id).Tracks K ∧
      ((s.uclampRqDecId K p id).rq (s.task p).cpu).warned = (s.rq (s.task p).cpu).warned ∧
      (((s.uclampRqDecId K p id).rq (s.task p).cpu).flagIdle = true ↔
        (s.rq (s.task p).cpu).flagIdle = true ∨
          id = .max ∧ ∀ q, (s.uclampRqDecId K p id).on (s.task p).cpu id q = false) ∧
      (id = .min → (∀ q, (s.uclampRqDecId K p id).on (s.task p).cpu id q = false) →
        (((s.uclampRqDecId K p id).rq (s.task p).cpu).uclamp id).value = 0) := by
  have hon : s.on (s.task p).cpu id p = true := State.on_eq_true_iff.mpr ⟨hactive, rfl⟩
  have hon' : (s.uclampRqDecId K p id).on (s.task p).cpu id p = false := by
    simp [State.uclampRqDecId, putClamp_on, uclampRqDecId_snd]
  have hoff : ∀ q, q ≠ p →
      (s.uclampRqDecId K p id).on (s.task p).cpu id q = s.on (s.task p).cpu id q ∧
        (s.on (s.task p).cpu id q = true → (s.uclampRqDecId K p id).se id q = s.se id q) :=
    fun q hq ↦ ⟨putClamp_on_of_ne (.inl hq), fun _ ↦ putClamp_se_of_ne (.inl hq)⟩
  obtain ⟨htracks, hrest⟩ := (h (s.task p).cpu id).dec hactive hon hon' hoff
  have hrq : (s.uclampRqDecId K p id).rq (s.task p).cpu =
    (Uclamp.uclampRqDecId K (s.rq (s.task p).cpu) (s.se id p) id).1 := putClamp_rq
  rw [hrq]
  exact ⟨h.putClamp (fun id' hid ↦ uclampRqDecId_uclamp_of_ne _ hid) htracks, hrest⟩

variable [DecidableEq G]

/-- A task enters the bucket of its effective clamp. -/
theorem State.Tracks.inc (h : s.Tracks K) (hactive : (s.se id p).active = false)
    (hwf : (uclampEffGet K root s p id).Wf K)
    (hidle : (s.rq (s.task p).cpu).flagIdle = true → ∀ q, s.on (s.task p).cpu id q = false)
    (hlow : (s.rq (s.task p).cpu).flagIdle = false → (∀ q, s.on (s.task p).cpu id q = false) →
      ((s.rq (s.task p).cpu).uclamp id).value ≤ (uclampEffGet K root s p id).value) :
    (s.uclampRqIncId K root p id).Tracks K ∧
      ((s.uclampRqIncId K root p id).rq (s.task p).cpu).flagIdle =
        (s.rq (s.task p).cpu).flagIdle ∧
      ((s.uclampRqIncId K root p id).rq (s.task p).cpu).warned = (s.rq (s.task p).cpu).warned := by
  obtain ⟨hother, hrest⟩ :=
    uclampRqIncId_frame (s.rq (s.task p).cpu) (uclampEffGet K root s p id) id
  have hrq : (s.uclampRqIncId K root p id).rq (s.task p).cpu = _ := putClamp_rq
  rw [hrq]
  refine ⟨h.putClamp hother ?_, hrest⟩
  refine (h (s.task p).cpu id).inc hidle hlow (State.on_eq_false hactive _) hwf ?_ putClamp_se
    fun q hq ↦ ⟨putClamp_on_of_ne (.inl hq), fun _ ↦ putClamp_se_of_ne (.inl hq)⟩
  simp [putClamp_on, Uclamp.uclampRqIncId]

/-! ## A state whose buckets are right -/

structure Accounted (K : Config) (s : State P C G) : Prop where
  tracks : s.Tracks K
  idle : ∀ c, (s.rq c).flagIdle = true ↔ ∀ p, s.on c .max p = false
  quiet : ∀ c, (s.rq c).warned = false
  same : ∀ p, (s.se .min p).active = (s.se .max p).active
  used : ∀ p, (s.se .max p).active = true →
    (s.task p).uclampEnabled = true ∧ s.schedUclampUsed = true

section

omit [DecidableEq G] [DecidableEq P]

theorem Accounted.active_iff (h : Accounted K s) (id : ClampId) (p : P) :
    (s.se id p).active = (s.se .max p).active := by
  cases id with
  | min => exact h.same p
  | max => rfl

theorem Accounted.on_iff (h : Accounted K s) (id : ClampId) (c : C) (p : P) :
    s.on c id p = s.on c .max p := by
  rw [State.on, State.on, h.active_iff]

theorem Accounted.flag_of_active (h : Accounted K s) (hp : (s.se .max p).active = true) :
    (s.rq (s.task p).cpu).flagIdle = false := by
  by_contra hflag
  have hon := (h.idle _).mp (Bool.not_eq_false _ ▸ hflag) p
  simp [State.on, hp] at hon

theorem Accounted.of_onlyClamps (h : Accounted K s) (ho : OnlyClamps p s s') (ht : s'.Tracks K)
    (hidle : (s'.rq (s.task p).cpu).flagIdle = true ↔
      ∀ q, s'.on (s.task p).cpu .max q = false)
    (hquiet : (s'.rq (s.task p).cpu).warned = false)
    (hsame : (s'.se .min p).active = (s'.se .max p).active)
    (hused : (s'.se .max p).active = true →
      (s.task p).uclampEnabled = true ∧ s.schedUclampUsed = true) : Accounted K s' := by
  have husedEq : s'.schedUclampUsed = s.schedUclampUsed := by rw [ho.rest]
  refine ⟨ht, fun c ↦ ?_, fun c ↦ ?_, fun q ↦ ?_, fun q hq ↦ ?_⟩
  · by_cases hc : c = (s.task p).cpu
    · exact hc ▸ hidle
    · rw [ho.rq c hc, h.idle c]
      exact forall_congr' fun q ↦ by rw [ho.on_of_ne (.inr hc)]
  · by_cases hc : c = (s.task p).cpu
    · exact hc ▸ hquiet
    · rw [ho.rq c hc, h.quiet]
  · by_cases hqp : q = p
    · exact hqp ▸ hsame
    · rw [ho.se _ q hqp, ho.se _ q hqp, h.same]
  · obtain ⟨u, hu⟩ := ho.task q
    rw [hu, husedEq]
    by_cases hqp : q = p
    · exact hqp ▸ hused (hqp ▸ hq)
    · rw [ho.se _ q hqp] at hq
      exact h.used q hq

end

omit [DecidableEq G] [Fintype P] in
theorem uclampRqDecId_of_inactive (h : (s.se id p).active = false) :
    s.uclampRqDecId K p id = s := by
  have h' : ((s.task p).uclamp id).active = false := h
  simp [State.uclampRqDecId, State.putClamp, State.setTask, uclampRqDecId_inactive _ _ h']

omit [DecidableEq G] [Fintype P] in
theorem uclampRqDecId_active : ((s.uclampRqDecId K p id).se id p).active = false := by
  simp [State.uclampRqDecId, putClamp_se, uclampRqDecId_snd]

omit [Fintype P] in
theorem uclampRqIncId_active : ((s.uclampRqIncId K root p id).se id p).active = true := by
  simp [State.uclampRqIncId, putClamp_se, Uclamp.uclampRqIncId]

omit [DecidableEq G] in
/-- `dequeue_task`. -/
theorem Accounted.rqDec (h : Accounted K s) (p : P) :
    Accounted K (s.uclampRqDec K p) ∧ ∀ id, ((s.uclampRqDec K p).se id p).active = false := by
  by_cases hactive : (s.se .max p).active = true
  · obtain ⟨henabled, hused⟩ := h.used p hactive
    have hs : s.uclampRqDec K p = (s.uclampRqDecId K p .min).uclampRqDecId K p .max := by
      simp [State.uclampRqDec, henabled, hused]
    have ho₁ : OnlyClamps p s (s.uclampRqDecId K p .min) := OnlyClamps.putClamp ..
    have hmin : (s.se .min p).active = true := (h.same p).trans hactive
    obtain ⟨ht₁, hw₁, hf₁, -⟩ := h.tracks.dec hmin
    rw [hs]
    set s₁ := s.uclampRqDecId K p .min
    have ho₂ : OnlyClamps p s (s₁.uclampRqDecId K p .max) := ho₁.trans (OnlyClamps.putClamp ..)
    have hmax : (s₁.se .max p).active = true := by
      rw [← hactive]
      exact congrArg _ (putClamp_se_of_ne (.inr (by simp)))
    obtain ⟨ht₂, hw₂, hf₂, -⟩ := ht₁.dec hmax
    have hp : ∀ id, ((s₁.uclampRqDecId K p .max).se id p).active = false := by
      rintro (_ | _)
      · rw [State.uclampRqDecId, putClamp_se_of_ne (.inr (by simp))]
        exact uclampRqDecId_active
      · exact uclampRqDecId_active
    rw [ho₁.cpu] at hw₂ hf₂
    refine ⟨h.of_onlyClamps ho₂ ht₂ ?_ ?_ ?_ ?_, hp⟩
    · simp [hf₂, hf₁, h.flag_of_active hactive]
    · rw [hw₂, hw₁, h.quiet]
    · rw [hp, hp]
    · simp [hp]
  · have hoff : ∀ id, (s.se id p).active = false := fun id ↦ by
      rw [h.active_iff]
      simpa using hactive
    have hs : s.uclampRqDec K p = s := by
      simp [State.uclampRqDec, uclampRqDecId_of_inactive (hoff _)]
    rw [hs]
    exact ⟨h, hoff⟩

/-- `enqueue_task`. -/
theorem Accounted.rqInc (h : Accounted K s) (hoff : (s.se .max p).active = false)
    (hwf : ∀ id, (uclampEffGet K root s p id).Wf K) : Accounted K (s.uclampRqInc K root p) := by
  by_cases hrun : s.schedUclampUsed = true ∧ (s.task p).uclampEnabled = true
  · have hs : s.uclampRqInc K root p =
        ((s.uclampRqIncId K root p .min).uclampRqIncId K root p .max).clearIdle (s.task p).cpu := by
      simp [State.uclampRqInc, hrun]
    have ho₁ : OnlyClamps p s (s.uclampRqIncId K root p .min) := OnlyClamps.putClamp ..
    have hnone : (s.rq (s.task p).cpu).flagIdle = true ↔
        ∀ q, s.on (s.task p).cpu .min q = false := by
      rw [h.idle]
      exact forall_congr' fun q ↦ by rw [h.on_iff .min]
    have hmin : (s.se .min p).active = false := (h.same p).trans hoff
    obtain ⟨ht₁, hf₁, hw₁⟩ := h.tracks.inc hmin (hwf .min)
      hnone.mp fun hflag hno ↦ by simp [hnone.mpr hno] at hflag
    rw [hs]
    set s₁ := s.uclampRqIncId K root p .min
    have hon₁ : ∀ c q, s₁.on c .max q = s.on c .max q := fun c q ↦
      putClamp_on_of_ne (.inr (by simp))
    have hoff₁ : (s₁.se .max p).active = false := by
      rw [← hoff]
      exact congrArg _ (putClamp_se_of_ne (.inr (by simp)))
    obtain ⟨ht₂, -, hw₂⟩ := ht₁.inc hoff₁ (by rw [ho₁.effGet]; exact hwf .max)
      (by
        rw [ho₁.cpu, hf₁]
        exact fun hflag q ↦ (hon₁ _ q).trans ((h.idle _).mp hflag q))
      (by
        rw [ho₁.cpu, hf₁]
        intro hflag hno
        have := (h.idle (s.task p).cpu).mpr fun q ↦ (hon₁ _ q).symm.trans (hno q)
        simp [this] at hflag)
    set s₂ := s₁.uclampRqIncId K root p .max
    have ho₂ : OnlyClamps p s s₂ := ho₁.trans (OnlyClamps.putClamp ..)
    have hp : ∀ id, (s₂.se id p).active = true := by
      rintro (_ | _)
      · exact (congrArg _ (putClamp_se_of_ne (.inr (by simp)))).trans uclampRqIncId_active
      · exact uclampRqIncId_active
    rw [ho₁.cpu] at hw₂
    refine h.of_onlyClamps ho₂.clearIdle ht₂.clearIdle ?_ ?_ ?_ fun _ ↦ hrun.symm
    · exact ho₂.clearIdle_flag (hp .max)
    · simp [State.clearIdle, hw₂, hw₁, h.quiet]
    · exact (hp .min).trans (hp .max).symm
  · have hs : s.uclampRqInc K root p = s := by
      simp only [State.uclampRqInc]
      grind
    rw [hs]
    exact h

omit [Fintype P] in
theorem uclampRqReincId_of_inactive (h : (s.se id p).active = false) :
    s.uclampRqReincId K root p id = s := by
  have h' : ((s.task p).uclamp id).active = false := h
  simp [State.uclampRqReincId, h']

/-- `uclamp_rq_reinc_id`: in between, the run queue may be without tasks. -/
theorem Accounted.rqReincId (h : Accounted K s) (hwf : (uclampEffGet K root s p id).Wf K) :
    Accounted K (s.uclampRqReincId K root p id) := by
  by_cases hactive : (s.se id p).active = true
  · have hmax : (s.se .max p).active = true := by rw [← h.active_iff id, hactive]
    have hflag := h.flag_of_active hmax
    have ho₁ : OnlyClamps p s (s.uclampRqDecId K p id) := OnlyClamps.putClamp ..
    obtain ⟨ht₁, hw₁, hf₁, hlow₁⟩ := h.tracks.dec hactive
    have hs : s.uclampRqReincId K root p id =
        if id = .max then
          ((s.uclampRqDecId K p id).uclampRqIncId K root p id).clearIdle (s.task p).cpu
        else (s.uclampRqDecId K p id).uclampRqIncId K root p id := by
      have : ((s.task p).uclamp id).active = true := hactive
      simp [State.uclampRqReincId, this]
    rw [hs]
    have hother : ∀ id' ≠ id, ((s.uclampRqDecId K p id).se id' p).active = (s.se id' p).active :=
      fun id' hid ↦ congrArg _ (putClamp_se_of_ne (.inr hid))
    have hoff₁ : ((s.uclampRqDecId K p id).se id p).active = false := uclampRqDecId_active
    set s₁ := s.uclampRqDecId K p id
    simp only [hflag, Bool.false_eq_true, false_or] at hf₁
    obtain ⟨ht₂, hf₂, hw₂⟩ := ht₁.inc hoff₁ (by rw [ho₁.effGet]; exact hwf)
      (by
        rw [ho₁.cpu]
        exact fun hf ↦ (hf₁.mp hf).2)
      (by
        rw [ho₁.cpu]
        intro hf hno
        have hid : id = .min := by
          cases id with
          | min => rfl
          | max => simp [hf₁.mpr ⟨rfl, hno⟩] at hf
        rw [hlow₁ hid hno]
        exact Nat.zero_le _)
    have ho₂ : OnlyClamps p s (s₁.uclampRqIncId K root p id) := ho₁.trans (OnlyClamps.putClamp ..)
    have hp : ∀ id', ((s₁.uclampRqIncId K root p id).se id' p).active = true := fun id' ↦ by
      by_cases hid : id' = id
      · rw [hid]
        exact uclampRqIncId_active
      · refine (congrArg _ (putClamp_se_of_ne (.inr hid))).trans ?_
        rw [hother id' hid, h.active_iff, hmax]
    set s₂ := s₁.uclampRqIncId K root p id
    rw [ho₁.cpu] at hw₂ hf₂
    have hsame := (hp .min).trans (hp .max).symm
    split_ifs with hid
    · refine h.of_onlyClamps ho₂.clearIdle ht₂.clearIdle (ho₂.clearIdle_flag (hp .max)) ?_ hsame
        fun _ ↦ h.used p hmax
      simp [State.clearIdle, hw₂, hw₁, h.quiet]
    · refine h.of_onlyClamps ho₂ ht₂ ?_ ?_ hsame fun _ ↦ h.used p hmax
      · have hon : s₂.on (s.task p).cpu .max p = true :=
          State.on_eq_true_iff.mpr ⟨hp .max, ho₂.cpu p⟩
        rw [hf₂, hf₁]
        exact iff_of_false (fun hm ↦ hid hm.1) fun hno ↦ by simp [hno p] at hon
      · rw [hw₂, hw₁, h.quiet]
  · rw [uclampRqReincId_of_inactive (by simpa using hactive)]
    exact h

omit [Fintype P] in
theorem uclampRqInc_se (K : Config) (root : G) (s : State P C G) (p : P) :
    (s.uclampRqInc K root p).se .max p =
      if s.schedUclampUsed = true ∧ (s.task p).uclampEnabled = true then
        { uclampEffGet K root s p .max with active := true }
      else s.se .max p := by
  by_cases hrun : s.schedUclampUsed = true ∧ (s.task p).uclampEnabled = true
  · have heff := (OnlyClamps.putClamp s p .min (uclampRqIncId (s.rq (s.task p).cpu)
      (uclampEffGet K root s p .min) .min)).effGet K root p .max
    rw [if_pos hrun, ← heff]
    simp only [State.uclampRqInc, hrun.1, hrun.2, Bool.not_true, Bool.false_eq_true, if_false]
    exact putClamp_se
  · rw [if_neg hrun]
    have hs : s.uclampRqInc K root p = s := by
      simp only [State.uclampRqInc]
      grind
    rw [hs]

omit [Fintype P] in
theorem uclampUpdateActive_se (K : Config) (root : G) (s : State P C G) (p : P) :
    (s.uclampUpdateActive K root p).se .max p =
      if (s.se .max p).active then { uclampEffGet K root s p .max with active := true }
      else s.se .max p := by
  have ho := OnlyClamps.rqReincId K root s p .min
  have hmin : (s.uclampRqReincId K root p .min).se .max p = s.se .max p := by
    simp only [State.uclampRqReincId]
    split_ifs with hact hid
    · rfl
    · cases hid
    · exact (putClamp_se_of_ne (.inr (by simp))).trans (putClamp_se_of_ne (.inr (by simp)))
  rw [State.uclampUpdateActive]
  set s₁ := s.uclampRqReincId K root p .min
  by_cases hact : (s.se .max p).active = true
  · have hact' : ((s₁.task p).uclamp .max).active = true := by
      rw [← hact, ← hmin]
      rfl
    have heff := (OnlyClamps.putClamp s₁ p .max (uclampRqDecId K (s₁.rq (s₁.task p).cpu)
      ((s₁.task p).uclamp .max) .max)).effGet K root p .max
    rw [if_pos hact, ← ho.effGet K root p .max, ← heff]
    simp only [State.uclampRqReincId, hact', Bool.not_true, Bool.false_eq_true, if_false, if_true]
    exact putClamp_se
  · rw [if_neg hact, uclampRqReincId_of_inactive (by rw [hmin]; simpa using hact), hmin]

theorem Accounted.updateActive_of_inactive (h : Accounted K s)
    (hoff : (s.se .max p).active = false) : s.uclampUpdateActive K root p = s := by
  have hmin : (s.se .min p).active = false := (h.same p).trans hoff
  rw [State.uclampUpdateActive, uclampRqReincId_of_inactive hmin, uclampRqReincId_of_inactive hoff]

theorem Accounted.updateActive (h : Accounted K s)
    (hwf : ∀ id, (uclampEffGet K root s p id).Wf K) :
    Accounted K (s.uclampUpdateActive K root p) :=
  (h.rqReincId (hwf .min)).rqReincId
    (by rw [(OnlyClamps.rqReincId K root s p .min).effGet]; exact hwf .max)

/-! ## Steps that touch no bucket -/

section

omit [DecidableEq G]

omit [DecidableEq P] in
theorem Accounted.congr (h : Accounted K s) (htask : s'.task = s.task) (hrq : s'.rq = s.rq)
    (hused : s.schedUclampUsed = true → s'.schedUclampUsed = true) : Accounted K s' := by
  have hse : s'.se = s.se := by
    funext id p
    rw [State.se, State.se, htask]
  have hon : s'.on = s.on := by
    funext c id p
    rw [State.on, State.on, hse, htask]
  refine ⟨fun c id ↦ ?_, ?_, ?_, ?_, fun p hp ↦ ?_⟩
  · rw [hrq, hon, hse]
    exact h.tracks c id
  · rw [hrq, hon]
    exact h.idle
  · rw [hrq]
    exact h.quiet
  · rw [hse]
    exact h.same
  · rw [hse] at hp
    rw [htask]
    exact ⟨(h.used p hp).1, hused (h.used p hp).2⟩

/-- A change of a task that its run queue does not see. -/
theorem Accounted.setTask (h : Accounted K s) {t : Task C G}
    (hoff : ((s.se .max p).active = false ∧ ∀ id, (t.uclamp id).active = false) ∨
      t.uclamp = (s.task p).uclamp ∧ t.cpu = (s.task p).cpu ∧
        t.uclampEnabled = (s.task p).uclampEnabled) : Accounted K (s.setTask p t) := by
  have hne : ∀ q ≠ p, (s.setTask p t).task q = s.task q := fun q hq ↦ by
    simp [State.setTask, hq]
  have hself : (s.setTask p t).task p = t := by simp [State.setTask]
  have hse : ∀ id q, (s.se id q).active = true → (s.setTask p t).se id q = s.se id q := by
    intro id q hq
    by_cases hqp : q = p
    · subst hqp
      rcases hoff with ⟨hoff, -⟩ | ⟨hu, -⟩
      · rw [h.active_iff, hoff] at hq
        simp at hq
      · rw [State.se, State.se, hself, hu]
    · rw [State.se, State.se, hne q hqp]
  have hon : ∀ c id q, (s.setTask p t).on c id q = s.on c id q := by
    intro c id q
    by_cases hqp : q = p
    · subst hqp
      rcases hoff with ⟨hoff, ht⟩ | ⟨hu, hc, -⟩
      · rw [h.on_iff, State.on_eq_false hoff, State.on_eq_false]
        rw [State.se, hself, ht]
      · rw [State.on, State.on, State.se, State.se, hself, hu, hc]
    · rw [State.on, State.on, State.se, State.se, hne q hqp]
  refine ⟨fun c id ↦ ?_, fun c ↦ ?_, h.quiet, fun q ↦ ?_, fun q hq ↦ ?_⟩
  · refine (h.tracks c id).congr (hon c id) fun q hq ↦ ?_
    rw [hse id q (State.on_eq_true_iff.mp hq).1]
    exact ⟨rfl, rfl⟩
  · exact (h.idle c).trans (forall_congr' fun q ↦ by rw [hon])
  · by_cases hqp : q = p
    · subst hqp
      simp only [State.se, hself]
      rcases hoff with ⟨-, ht⟩ | ⟨hu, -, -⟩
      · rw [ht, ht]
      · rw [hu]
        exact h.same q
    · simp only [State.se, hne q hqp]
      exact h.same q
  · by_cases hqp : q = p
    · subst hqp
      simp only [State.se, hself] at hq ⊢
      rcases hoff with ⟨-, ht⟩ | ⟨hu, -, he⟩
      · simp [ht] at hq
      · rw [hu] at hq
        rw [he]
        exact h.used q hq
    · simp only [State.se, hne q hqp] at hq ⊢
      exact h.used q hq

end

end NcuKernel.Uclamp
