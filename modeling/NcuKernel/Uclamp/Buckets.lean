import NcuKernel.Library.Counting
import NcuKernel.Sched.Uclamp

/-!
# The clamp buckets of a run queue

A run queue keeps, for each of the two clamps, the number of tasks accounted in each
bucket of clamp values, the largest value seen in a bucket since it was last empty, and
from these the clamp that the frequency governor reads. `uclamp_rq_inc_id` and
`uclamp_rq_dec_id` keep all of it up to date without looking at the other tasks.
-/

namespace NcuKernel.Uclamp

open Sched (ClampId schedCapacityScale uclampNone)
open Function (update)

/-- `CONFIG_UCLAMP_BUCKETS_COUNT`, with the range that its Kconfig entry allows. -/
structure Config where
  buckets : ℕ
  five_le : 5 ≤ buckets
  le_twenty : buckets ≤ 20

/-- `UCLAMP_BUCKET_DELTA`, a `DIV_ROUND_CLOSEST`. -/
def Config.bucketDelta (K : Config) : ℕ := (schedCapacityScale + K.buckets / 2) / K.buckets

def uclampBucketId (K : Config) (clampValue : ℕ) : ℕ :=
  min (clampValue / K.bucketDelta) (K.buckets - 1)

structure UclampSe where
  value : ℕ
  bucketId : ℕ
  active : Bool
  userDefined : Bool
  deriving DecidableEq, Repr

/-- The bucket is computed from the argument, `value` keeps its low 11 bits. -/
def uclampSeSet (K : Config) (ucSe : UclampSe) (value : ℕ) (userDefined : Bool) : UclampSe :=
  { ucSe with
    value := value % 2048
    bucketId := uclampBucketId K value
    userDefined := userDefined }

structure Bucket where
  value : ℕ
  tasks : ℕ
  deriving DecidableEq, Repr

structure UclampRq where
  value : ℕ
  bucket : ℕ → Bucket

/-- The clamps of a run queue, `UCLAMP_FLAG_IDLE`, and whether one of the two
`SCHED_WARN_ON` of `uclamp_rq_dec_id` has fired. -/
structure Rq where
  uclamp : ClampId → UclampRq
  flagIdle : Bool
  warned : Bool

def Rq.setValue (rq : Rq) (id : ClampId) (value : ℕ) : Rq :=
  { rq with uclamp := update rq.uclamp id { rq.uclamp id with value := value } }

def Rq.setBucket (rq : Rq) (id : ClampId) (b : ℕ) (bucket : Bucket) : Rq :=
  { rq with
    uclamp := update rq.uclamp id
      { rq.uclamp id with bucket := update (rq.uclamp id).bucket b bucket } }

def initUclampRq : Rq where
  uclamp id := { value := uclampNone id, bucket := fun _ ↦ ⟨0, 0⟩ }
  flagIdle := true
  warned := false

def uclampIdleValue (rq : Rq) (id : ClampId) (clampValue : ℕ) : Rq × ℕ :=
  match id with
  | .max => ({ rq with flagIdle := true }, clampValue)
  | .min => (rq, uclampNone .min)

def uclampIdleReset (rq : Rq) (id : ClampId) (clampValue : ℕ) : Rq :=
  if rq.flagIdle then rq.setValue id clampValue else rq

/-- The loop of `uclamp_rq_max_value`, from bucket `n - 1` down. -/
def topBucket (bucket : ℕ → Bucket) : ℕ → Option ℕ
  | 0 => none
  | n + 1 => if (bucket n).tasks ≠ 0 then some (bucket n).value else topBucket bucket n

def uclampRqMaxValue (K : Config) (rq : Rq) (id : ClampId) (clampValue : ℕ) : Rq × ℕ :=
  match topBucket (rq.uclamp id).bucket K.buckets with
  | some value => (rq, value)
  | none => uclampIdleValue rq id clampValue

/-- `eff` is what `uclamp_eff_get` returned; the result is stored in `p->uclamp[clamp_id]`. -/
def uclampRqIncId (rq : Rq) (eff : UclampSe) (id : ClampId) : Rq × UclampSe :=
  let bucket := (rq.uclamp id).bucket eff.bucketId
  let tasks := bucket.tasks + 1
  let rq := uclampIdleReset rq id eff.value
  let value := if tasks = 1 ∨ bucket.value < eff.value then eff.value else bucket.value
  let rq := rq.setBucket id eff.bucketId ⟨value, tasks⟩
  let rq := if (rq.uclamp id).value < eff.value then rq.setValue id eff.value else rq
  (rq, { eff with active := true })

def uclampRqDecId (K : Config) (rq : Rq) (ucSe : UclampSe) (id : ClampId) : Rq × UclampSe :=
  if !ucSe.active then (rq, ucSe)
  else
    let bucket := (rq.uclamp id).bucket ucSe.bucketId
    let tasks := bucket.tasks - 1
    let rq := { rq with warned := rq.warned || bucket.tasks = 0 }
    let rq := rq.setBucket id ucSe.bucketId ⟨bucket.value, tasks⟩
    let done := { ucSe with active := false }
    if tasks ≠ 0 then (rq, done)
    else
      let rqClamp := (rq.uclamp id).value
      let rq := { rq with warned := rq.warned || rqClamp < bucket.value }
      if rqClamp ≤ bucket.value then
        let r := uclampRqMaxValue K rq id ucSe.value
        (r.1.setValue id r.2, done)
      else (rq, done)

/-! ## Buckets partition the values in order -/

variable {K : Config}

theorem Config.bucketDelta_pos (K : Config) : 0 < K.bucketDelta := by
  have := K.five_le
  have := K.le_twenty
  refine Nat.div_pos ?_ (by omega)
  simp only [schedCapacityScale]
  omega

theorem uclampBucketId_mono {a b : ℕ} (h : a ≤ b) : uclampBucketId K a ≤ uclampBucketId K b := by
  have := Nat.div_le_div_right (c := K.bucketDelta) h
  simp only [uclampBucketId]
  omega

theorem lt_of_uclampBucketId_lt {a b : ℕ} (h : uclampBucketId K a < uclampBucketId K b) : a < b :=
  lt_of_not_ge fun hle ↦ absurd (uclampBucketId_mono (K := K) hle) (by omega)

theorem uclampBucketId_lt (a : ℕ) : uclampBucketId K a < K.buckets := by
  have := K.five_le
  simp only [uclampBucketId]
  omega

/-- Values of one bucket lie within one bucket width of each other; only the last
bucket also takes what rounding leaves over. -/
theorem sub_le_of_uclampBucketId_eq {a b : ℕ} (h : uclampBucketId K a = uclampBucketId K b)
    (ha : a ≤ schedCapacityScale) : a - b ≤ K.bucketDelta + K.buckets / 2 := by
  have hpos := K.bucketDelta_pos
  have := K.five_le
  have hda := Nat.div_add_mod a K.bucketDelta
  have hdb := Nat.div_add_mod b K.bucketDelta
  have hma := Nat.mod_lt a hpos
  simp only [uclampBucketId] at h
  by_cases hlast : a / K.bucketDelta < K.buckets - 1
  · have heq : a / K.bucketDelta = b / K.bucketDelta := by omega
    rw [heq] at hda
    omega
  · have hmul : K.bucketDelta * (K.buckets - 1) ≤ b := by
      have : K.buckets - 1 ≤ b / K.bucketDelta := by omega
      calc K.bucketDelta * (K.buckets - 1) ≤ K.bucketDelta * (b / K.bucketDelta) :=
            Nat.mul_le_mul_left _ this
        _ ≤ b := Nat.mul_div_le b _
    have hround : schedCapacityScale < K.buckets * K.bucketDelta + K.buckets / 2 + 1 := by
      have hd := Nat.div_add_mod (schedCapacityScale + K.buckets / 2) K.buckets
      have hm := Nat.mod_lt (schedCapacityScale + K.buckets / 2) (show 0 < K.buckets by omega)
      have hdef : K.buckets * ((schedCapacityScale + K.buckets / 2) / K.buckets) =
        K.buckets * K.bucketDelta := rfl
      omega
    have hsplit : K.bucketDelta * (K.buckets - 1) + K.bucketDelta =
        K.buckets * K.bucketDelta := by
      rw [← Nat.mul_succ, Nat.mul_comm]
      congr 1
      omega
    omega

theorem topBucket_eq_some {bucket : ℕ → Bucket} {n v : ℕ} (h : topBucket bucket n = some v) :
    ∃ b < n, (bucket b).tasks ≠ 0 ∧ (bucket b).value = v ∧
      ∀ b' < n, (bucket b').tasks ≠ 0 → b' ≤ b := by
  induction n with
  | zero => simp [topBucket] at h
  | succ n ih =>
      rw [topBucket] at h
      split at h
      · exact ⟨n, by omega, ‹_›, Option.some.inj h, fun b' hb' _ ↦ by omega⟩
      · rename_i hempty
        obtain ⟨b, hb, htasks, hv, hmax⟩ := ih h
        refine ⟨b, by omega, htasks, hv, fun b' hb' ht ↦ hmax b' ?_ ht⟩
        have : b' ≠ n := fun heq ↦ hempty (heq ▸ ht)
        omega

theorem topBucket_eq_none {bucket : ℕ → Bucket} {n : ℕ} (h : topBucket bucket n = none) :
    ∀ b < n, (bucket b).tasks = 0 := by
  induction n with
  | zero => exact fun b hb ↦ absurd hb (by omega)
  | succ n ih =>
      rw [topBucket] at h
      split at h
      · simp at h
      · rename_i hempty
        intro b hb
        by_cases heq : b = n
        · rw [heq]
          exact not_not.mp hempty
        · exact ih h b (by omega)

/-! ## What the buckets say about the tasks -/

/-- A clamp that `uclamp_se_set` made from a value in range. -/
structure UclampSe.Wf (K : Config) (ucSe : UclampSe) : Prop where
  bucketId : ucSe.bucketId = uclampBucketId K ucSe.value
  value_le : ucSe.value ≤ schedCapacityScale

theorem wf_uclampSeSet {ucSe : UclampSe} {value : ℕ} {userDefined : Bool}
    (h : value ≤ schedCapacityScale) : (uclampSeSet K ucSe value userDefined).Wf K := by
  have hmod : value % 2048 = value := Nat.mod_eq_of_lt (by simp [schedCapacityScale] at h; omega)
  exact ⟨by simp [uclampSeSet, hmod], by simp [uclampSeSet, hmod, h]⟩

variable {P : Type*} [Fintype P]

/-- The number of tasks of `on` in bucket `b`. -/
def inBucket (on : P → Bool) (se : P → UclampSe) (b : ℕ) : ℕ :=
  ∑ p, if on p = true ∧ (se p).bucketId = b then 1 else 0

/-- What one clamp of a run queue says about the tasks `on` it, whose effective clamps
are `se`. -/
structure Tracks (K : Config) (ucRq : UclampRq) (on : P → Bool) (se : P → UclampSe) : Prop where
  wf : ∀ p, on p = true → (se p).Wf K
  tasks : ∀ b, (ucRq.bucket b).tasks = inBucket on se b
  placed : ∀ b, (ucRq.bucket b).tasks ≠ 0 →
    uclampBucketId K (ucRq.bucket b).value = b ∧ (ucRq.bucket b).value ≤ schedCapacityScale
  le_bucket : ∀ p, on p = true → (se p).value ≤ (ucRq.bucket (se p).bucketId).value
  bucket_le : ∀ b, (ucRq.bucket b).tasks ≠ 0 → (ucRq.bucket b).value ≤ ucRq.value
  attained : ∀ p, on p = true →
    ∃ b, (ucRq.bucket b).tasks ≠ 0 ∧ (ucRq.bucket b).value = ucRq.value

variable {ucRq : UclampRq} {on on' : P → Bool} {se se' : P → UclampSe} {p : P}

theorem inBucket_eq_zero_iff {b : ℕ} :
    inBucket on se b = 0 ↔ ∀ p, on p = true → (se p).bucketId ≠ b := by
  simp [inBucket]

theorem inBucket_congr (hon : ∀ p, on' p = on p) (hse : ∀ p, on p = true →
    (se' p).bucketId = (se p).bucketId) (b : ℕ) : inBucket on' se' b = inBucket on se b := by
  refine Finset.sum_congr rfl fun p _ ↦ ?_
  rw [hon p]
  by_cases h : on p = true
  · rw [hse p h]
  · simp [h]

/-- One task more. -/
theorem inBucket_add (hon : on p = false) (hon' : on' p = true)
    (hoff : ∀ q, q ≠ p → on' q = on q ∧ (on q = true → se' q = se q)) (b : ℕ) :
    inBucket on' se' b = inBucket on se b + if (se' p).bucketId = b then 1 else 0 := by
  have h := Counting.sum_add_of_eq_off
    (f := fun q ↦ if on q = true ∧ (se q).bucketId = b then 1 else 0)
    (g := fun q ↦ if on' q = true ∧ (se' q).bucketId = b then 1 else 0) p fun q hq ↦ by
      obtain ⟨ho, hs⟩ := hoff q hq
      rw [ho]
      by_cases hq : on q = true
      · rw [hs hq]
      · simp [hq]
  simpa [inBucket, hon, hon'] using h

theorem Tracks.congr (h : Tracks K ucRq on se) (hon : ∀ p, on' p = on p)
    (hse : ∀ p, on p = true → (se' p).value = (se p).value ∧ (se' p).bucketId = (se p).bucketId) :
    Tracks K ucRq on' se' where
  wf p hp := by
    have hp := hon p ▸ hp
    exact ⟨by rw [(hse p hp).1, (hse p hp).2, (h.wf p hp).bucketId],
      (hse p hp).1 ▸ (h.wf p hp).value_le⟩
  tasks b := (h.tasks b).trans (inBucket_congr hon (fun p hp ↦ (hse p hp).2) b).symm
  placed := h.placed
  le_bucket p hp := by
    have hp := hon p ▸ hp
    rw [(hse p hp).1, (hse p hp).2]
    exact h.le_bucket p hp
  bucket_le := h.bucket_le
  attained p hp := h.attained p (hon p ▸ hp)

theorem Tracks.tasks_ne_zero (h : Tracks K ucRq on se) (hp : on p = true) :
    (ucRq.bucket (se p).bucketId).tasks ≠ 0 := fun h0 ↦
  inBucket_eq_zero_iff.mp ((h.tasks _).symm.trans h0) p hp rfl

theorem Tracks.exists_of_tasks {b : ℕ} (h : Tracks K ucRq on se)
    (hb : (ucRq.bucket b).tasks ≠ 0) : ∃ p, on p = true ∧ (se p).bucketId = b := by
  by_contra hno
  push Not at hno
  exact hb ((h.tasks b).trans (inBucket_eq_zero_iff.mpr hno))

theorem Tracks.le (h : Tracks K ucRq on se) (hp : on p = true) : (se p).value ≤ ucRq.value :=
  (h.le_bucket p hp).trans (h.bucket_le _ (h.tasks_ne_zero hp))

/-- The clamp of the run queue lies in the bucket of one of its tasks. -/
theorem Tracks.exists_near (h : Tracks K ucRq on se) (hp : on p = true) :
    ∃ q, on q = true ∧ (se q).bucketId = uclampBucketId K ucRq.value ∧
      ucRq.value - (se q).value ≤ K.bucketDelta + K.buckets / 2 := by
  obtain ⟨b, hb, hv⟩ := h.attained p hp
  obtain ⟨q, hq, hqb⟩ := h.exists_of_tasks hb
  obtain ⟨hplaced, hle⟩ := h.placed b hb
  rw [hv] at hplaced hle
  have hsame : (se q).bucketId = uclampBucketId K ucRq.value := hqb.trans hplaced.symm
  exact ⟨q, hq, hsame, sub_le_of_uclampBucketId_eq (by rw [← hsame, (h.wf q hq).bucketId]) hle⟩

/-! ## One task comes -/

variable {rq : Rq} {eff ucSe : UclampSe} {id id' : ClampId}

omit [Fintype P] in
theorem uclampRqIncId_frame (rq : Rq) (eff : UclampSe) (id : ClampId) :
    (∀ id' ≠ id, (uclampRqIncId rq eff id).1.uclamp id' = rq.uclamp id') ∧
      (uclampRqIncId rq eff id).1.flagIdle = rq.flagIdle ∧
      (uclampRqIncId rq eff id).1.warned = rq.warned := by
  refine ⟨fun id' hne ↦ ?_, ?_, ?_⟩ <;>
    simp only [uclampRqIncId, uclampIdleReset] <;> split_ifs <;>
      simp_all [Rq.setValue, Rq.setBucket]

omit [Fintype P] in
theorem uclampRqIncId_uclamp (rq : Rq) (eff : UclampSe) (id : ClampId) :
    (uclampRqIncId rq eff id).1.uclamp id =
      { value := if rq.flagIdle then eff.value else max (rq.uclamp id).value eff.value
        bucket := update (rq.uclamp id).bucket eff.bucketId
          ⟨if ((rq.uclamp id).bucket eff.bucketId).tasks = 0 then eff.value
            else max ((rq.uclamp id).bucket eff.bucketId).value eff.value,
          ((rq.uclamp id).bucket eff.bucketId).tasks + 1⟩ } := by
  simp only [uclampRqIncId, uclampIdleReset]
  split_ifs <;> simp_all [Rq.setValue, Rq.setBucket] <;> grind

/-- `uclamp_rq_inc_id` for a task that is not on the run queue yet. Where the flag is
clear and nobody else is there either, the old clamp must not hold the new one up. -/
theorem Tracks.inc (h : Tracks K (rq.uclamp id) on se)
    (hidle : rq.flagIdle = true → ∀ q, on q = false)
    (hlow : rq.flagIdle = false → (∀ q, on q = false) → (rq.uclamp id).value ≤ eff.value)
    (hon : on p = false) (hwf : eff.Wf K)
    (hon' : on' p = true) (hse' : se' p = (uclampRqIncId rq eff id).2)
    (hoff : ∀ q, q ≠ p → on' q = on q ∧ (on q = true → se' q = se q)) :
    Tracks K ((uclampRqIncId rq eff id).1.uclamp id) on' se' := by
  have hp : (se' p).value = eff.value ∧ (se' p).bucketId = eff.bucketId := by
    rw [hse']
    exact ⟨rfl, rfl⟩
  have hempty : rq.flagIdle = true → ∀ b, ((rq.uclamp id).bucket b).tasks = 0 := fun hi b ↦
    (h.tasks b).trans (inBucket_eq_zero_iff.mpr fun q hq ↦ by simp [hidle hi q] at hq)
  rw [uclampRqIncId_uclamp]
  set ucRq := rq.uclamp id
  constructor
  case wf =>
    intro q hq
    by_cases hqp : q = p
    · subst hqp
      exact ⟨by rw [hp.1, hp.2, hwf.bucketId], hp.1 ▸ hwf.value_le⟩
    · obtain ⟨ho, hs⟩ := hoff q hqp
      rw [hs (ho ▸ hq)]
      exact h.wf q (ho ▸ hq)
  case tasks =>
    intro b
    rw [inBucket_add hon hon' hoff, hp.2, ← h.tasks b]
    by_cases hb : b = eff.bucketId
    · simp [hb]
    · simp [Function.update_of_ne hb, Ne.symm hb]
  case placed =>
    intro b hb
    by_cases hbe : b = eff.bucketId
    · subst hbe
      simp only [Function.update_self]
      have hnew := And.intro hwf.bucketId.symm hwf.value_le
      split
      · exact hnew
      · rename_i htasks
        rcases max_choice (ucRq.bucket eff.bucketId).value eff.value with hm | hm <;> rw [hm]
        · exact h.placed _ htasks
        · exact hnew
    · simp only [Function.update_of_ne hbe] at hb ⊢
      exact h.placed b hb
  case le_bucket =>
    intro q hq
    by_cases hqp : q = p
    · subst hqp
      rw [hp.1, hp.2]
      simp only [Function.update_self]
      split <;> simp
    · obtain ⟨ho, hs⟩ := hoff q hqp
      have hq := ho ▸ hq
      rw [hs hq]
      have hle := h.le_bucket q hq
      by_cases hb : (se q).bucketId = eff.bucketId
      · have := h.tasks_ne_zero hq
        rw [hb] at this hle ⊢
        simp [this, hle]
      · simpa [Function.update_of_ne hb] using hle
  case bucket_le =>
    intro b hb
    by_cases hbe : b = eff.bucketId
    · subst hbe
      simp only [Function.update_self]
      split_ifs with ht hi hi
      · exact le_rfl
      · exact le_max_right _ _
      · exact absurd (hempty hi _) ht
      · exact max_le_max_right _ (h.bucket_le _ ht)
    · simp only [Function.update_of_ne hbe] at hb ⊢
      split_ifs with hi
      · exact absurd (hempty hi b) hb
      · exact (h.bucket_le b hb).trans (le_max_left _ _)
  case attained =>
    intro _ _
    by_cases hi : rq.flagIdle = true
    · exact ⟨eff.bucketId, by simp, by simp [hi, hempty hi]⟩
    · rcases le_or_gt ucRq.value eff.value with hle | hlt
      · refine ⟨eff.bucketId, by simp, ?_⟩
        simp only [Function.update_self, hi, Bool.false_eq_true, if_false]
        split
        · exact (max_eq_right hle).symm
        · rename_i ht
          rw [max_eq_right hle, max_eq_right ((h.bucket_le _ ht).trans hle)]
      · obtain ⟨r, hr⟩ : ∃ r, on r = true := by
          by_contra hno
          have := hlow (by simpa using hi) fun q ↦ Bool.eq_false_iff.mpr fun hq ↦ hno ⟨q, hq⟩
          omega
        obtain ⟨b, hb, hv⟩ := h.attained r hr
        refine ⟨b, ?_, ?_⟩ <;> by_cases hbe : b = eff.bucketId
        · simp [hbe]
        · simpa [Function.update_of_ne hbe] using hb
        · subst hbe
          simp [hb, hi, hv]
        · simp [Function.update_of_ne hbe, hi, hv, hlt.le]

/-! ## One task leaves -/

/-- The buckets after `uclamp_rq_dec_id`. -/
def UclampRq.decBucket (ucRq : UclampRq) (ucSe : UclampSe) : ℕ → Bucket :=
  update ucRq.bucket ucSe.bucketId
    ⟨(ucRq.bucket ucSe.bucketId).value, (ucRq.bucket ucSe.bucketId).tasks - 1⟩

omit [Fintype P] in
theorem uclampRqDecId_inactive (rq : Rq) (id : ClampId) (h : ucSe.active = false) :
    uclampRqDecId K rq ucSe id = (rq, ucSe) := by
  simp [uclampRqDecId, h]

omit [Fintype P] in
theorem uclampRqDecId_snd (rq : Rq) (id : ClampId) :
    (uclampRqDecId K rq ucSe id).2 = { ucSe with active := false } := by
  obtain ⟨value, bucketId, active, userDefined⟩ := ucSe
  simp only [uclampRqDecId]
  split_ifs <;> simp_all

omit [Fintype P] in
theorem uclampRqDecId_uclamp_of_ne (rq : Rq) (hne : id' ≠ id) :
    (uclampRqDecId K rq ucSe id).1.uclamp id' = rq.uclamp id' := by
  simp only [uclampRqDecId, uclampRqMaxValue, uclampIdleValue]
  split_ifs <;> (try split) <;> (try split) <;> simp [Rq.setValue, Rq.setBucket, hne]

omit [Fintype P] in
/-- The last task of its bucket leaves a bucket that held the maximum. -/
theorem uclampRqDecId_of_top (hactive : ucSe.active = true)
    (htasks : ((rq.uclamp id).bucket ucSe.bucketId).tasks = 1)
    (hle : ((rq.uclamp id).bucket ucSe.bucketId).value = (rq.uclamp id).value) :
    (uclampRqDecId K rq ucSe id).1 =
      match topBucket ((rq.uclamp id).decBucket ucSe) K.buckets with
      | some value =>
          { rq with
            uclamp := update rq.uclamp id ⟨value, (rq.uclamp id).decBucket ucSe⟩ }
      | none =>
          { rq with
            uclamp := update rq.uclamp id
              ⟨if id = .max then ucSe.value else uclampNone .min, (rq.uclamp id).decBucket ucSe⟩
            flagIdle := rq.flagIdle || id = .max } := by
  cases htop : topBucket ((rq.uclamp id).decBucket ucSe) K.buckets with
  | some value =>
      simp_all [uclampRqDecId, uclampRqMaxValue, UclampRq.decBucket, Rq.setBucket, Rq.setValue]
  | none =>
      cases id <;> simp_all [uclampRqDecId, uclampRqMaxValue, uclampIdleValue,
        UclampRq.decBucket, Rq.setBucket, Rq.setValue]

omit [Fintype P] in
theorem uclampRqDecId_of_not_top (hactive : ucSe.active = true)
    (htasks : ((rq.uclamp id).bucket ucSe.bucketId).tasks ≠ 0)
    (hlt : ((rq.uclamp id).bucket ucSe.bucketId).tasks = 1 →
      ((rq.uclamp id).bucket ucSe.bucketId).value < (rq.uclamp id).value) :
    (uclampRqDecId K rq ucSe id).1 =
      { rq with
        uclamp := update rq.uclamp id
          { rq.uclamp id with bucket := (rq.uclamp id).decBucket ucSe } } := by
  by_cases hone : ((rq.uclamp id).bucket ucSe.bucketId).tasks = 1
  · have hlt := hlt hone
    simp [uclampRqDecId, UclampRq.decBucket, Rq.setBucket, hactive, hone, hlt.not_ge, hlt.not_gt]
  · have hsub : ((rq.uclamp id).bucket ucSe.bucketId).tasks - 1 ≠ 0 := by omega
    simp [uclampRqDecId, UclampRq.decBucket, Rq.setBucket, hactive, htasks, hsub]

theorem Tracks.decBucket_tasks (h : Tracks K ucRq on se) (hon : on p = true) (hon' : on' p = false)
    (hoff : ∀ q, q ≠ p → on' q = on q ∧ (on q = true → se' q = se q)) (b : ℕ) :
    (ucRq.decBucket (se p) b).tasks = inBucket on' se' b := by
  have hadd : inBucket on se b = inBucket on' se' b + if (se p).bucketId = b then 1 else 0 :=
    inBucket_add hon' hon
      (fun q hq ↦ ⟨(hoff q hq).1.symm, fun hq' ↦ ((hoff q hq).2 ((hoff q hq).1 ▸ hq')).symm⟩) b
  rw [← h.tasks b] at hadd
  by_cases hb : b = (se p).bucketId
  · subst hb
    simp only [UclampRq.decBucket, Function.update_self, if_true] at hadd ⊢
    omega
  · simpa [UclampRq.decBucket, Function.update_of_ne hb, Ne.symm hb] using hadd

omit [Fintype P] in
theorem UclampRq.decBucket_value (ucRq : UclampRq) (ucSe : UclampSe) (b : ℕ) :
    (ucRq.decBucket ucSe b).value = (ucRq.bucket b).value := by
  by_cases hb : b = ucSe.bucketId
  · simp [UclampRq.decBucket, hb]
  · simp [UclampRq.decBucket, Function.update_of_ne hb]

omit [Fintype P] in
theorem UclampRq.tasks_of_decBucket {b : ℕ} (h : (ucRq.decBucket ucSe b).tasks ≠ 0) :
    (ucRq.bucket b).tasks ≠ 0 := by
  by_cases hb : b = ucSe.bucketId
  · simp only [UclampRq.decBucket, hb, Function.update_self] at h ⊢
    omega
  · simpa [UclampRq.decBucket, Function.update_of_ne hb] using h

/-- The counts and the values of the buckets are right after a decrement, whatever
becomes of the clamp; the clamp is right if it is the largest value that is left. -/
theorem Tracks.of_decBucket (h : Tracks K ucRq on se) (hon : on p = true) (hon' : on' p = false)
    (hoff : ∀ q, q ≠ p → on' q = on q ∧ (on q = true → se' q = se q)) {value : ℕ}
    (hle : ∀ b, (ucRq.decBucket (se p) b).tasks ≠ 0 → (ucRq.bucket b).value ≤ value)
    (hattained : ∀ b, (ucRq.decBucket (se p) b).tasks ≠ 0 →
      ∃ b, (ucRq.decBucket (se p) b).tasks ≠ 0 ∧ (ucRq.bucket b).value = value) :
    Tracks K ⟨value, ucRq.decBucket (se p)⟩ on' se' := by
  have htasks := h.decBucket_tasks hon hon' hoff
  have hother : ∀ q, on' q = true → on q = true ∧ se' q = se q := fun q hq ↦ by
    have hqp : q ≠ p := fun heq ↦ by simp [heq, hon'] at hq
    obtain ⟨ho, hs⟩ := hoff q hqp
    exact ⟨ho ▸ hq, hs (ho ▸ hq)⟩
  refine ⟨fun q hq ↦ ?_, htasks, fun b hb ↦ ?_, fun q hq ↦ ?_, fun b hb ↦ ?_, fun q hq ↦ ?_⟩
  · rw [(hother q hq).2]
    exact h.wf q (hother q hq).1
  · simp only [UclampRq.decBucket_value]
    exact h.placed b (UclampRq.tasks_of_decBucket hb)
  · simp only [UclampRq.decBucket_value]
    rw [(hother q hq).2]
    exact h.le_bucket q (hother q hq).1
  · simp only [UclampRq.decBucket_value]
    exact hle b hb
  · simp only [UclampRq.decBucket_value]
    refine hattained (se' q).bucketId ?_
    rw [htasks]
    exact fun h0 ↦ inBucket_eq_zero_iff.mp h0 q hq rfl

/-- Different buckets hold different values, in the order of the buckets. -/
theorem Tracks.value_le_of_le (h : Tracks K ucRq on se) {b b' : ℕ} (hb : (ucRq.bucket b).tasks ≠ 0)
    (hb' : (ucRq.bucket b').tasks ≠ 0) (hle : b ≤ b') :
    (ucRq.bucket b).value ≤ (ucRq.bucket b').value := by
  rcases hle.eq_or_lt with rfl | hlt
  · exact le_rfl
  · refine (lt_of_uclampBucketId_lt (K := K) ?_).le
    rw [(h.placed b hb).1, (h.placed b' hb').1]
    exact hlt

/-- `uclamp_rq_dec_id` for a task that is refcounted: neither warning fires, and when
the last task leaves the flag is set and the minimum dropped. -/
theorem Tracks.dec (h : Tracks K (rq.uclamp id) on se) (hactive : (se p).active = true)
    (hon : on p = true) (hon' : on' p = false)
    (hoff : ∀ q, q ≠ p → on' q = on q ∧ (on q = true → se' q = se q)) :
    Tracks K ((uclampRqDecId K rq (se p) id).1.uclamp id) on' se' ∧
      (uclampRqDecId K rq (se p) id).1.warned = rq.warned ∧
      ((uclampRqDecId K rq (se p) id).1.flagIdle = true ↔
        rq.flagIdle = true ∨ id = .max ∧ ∀ q, on' q = false) ∧
      (id = .min → (∀ q, on' q = false) →
        ((uclampRqDecId K rq (se p) id).1.uclamp id).value = 0) := by
  have htasks := h.tasks_ne_zero hon
  have hle := h.bucket_le _ htasks
  have hdec := h.decBucket_tasks hon hon' hoff
  have hnone : (∀ q, on' q = false) ↔ ∀ b, ((rq.uclamp id).decBucket (se p) b).tasks = 0 := by
    refine ⟨fun hno b ↦ ?_, fun hno q ↦ ?_⟩
    · rw [hdec, inBucket_eq_zero_iff]
      exact fun q hq ↦ by simp [hno q] at hq
    · have h0 := inBucket_eq_zero_iff.mp ((hdec (se' q).bucketId).symm.trans (hno _)) q
      exact Bool.eq_false_iff.mpr fun hq ↦ h0 hq rfl
  by_cases htop : ((rq.uclamp id).bucket (se p).bucketId).tasks = 1 ∧
      ((rq.uclamp id).bucket (se p).bucketId).value = (rq.uclamp id).value
  · rw [uclampRqDecId_of_top hactive htop.1 htop.2]
    cases hfind : topBucket ((rq.uclamp id).decBucket (se p)) K.buckets with
    | some value =>
        obtain ⟨b, hb, hbt, hbv, hmax⟩ := topBucket_eq_some hfind
        rw [UclampRq.decBucket_value] at hbv
        refine ⟨?_, rfl, ?_, fun _ hno ↦ absurd (hnone.mp hno b) hbt⟩
        · simp only [Function.update_self]
          refine h.of_decBucket hon hon' hoff (fun b' hb' ↦ ?_) fun _ _ ↦ ⟨b, hbt, hbv⟩
          have hb'n := UclampRq.tasks_of_decBucket hb'
          rw [← hbv]
          refine h.value_le_of_le hb'n (UclampRq.tasks_of_decBucket hbt) (hmax b' ?_ hb')
          rw [← (h.placed b' hb'n).1]
          exact uclampBucketId_lt _
        · simp only [hnone]
          exact ⟨.inl, fun ho ↦ ho.resolve_right fun hno ↦ hbt (hno.2 b)⟩
    | none =>
        have hempty : ∀ b, ((rq.uclamp id).decBucket (se p) b).tasks = 0 := fun b ↦ by
          by_contra hne
          refine hne (topBucket_eq_none hfind b ?_)
          rw [← (h.placed b (UclampRq.tasks_of_decBucket hne)).1]
          exact uclampBucketId_lt _
        refine ⟨?_, rfl, by simp [hnone, hempty], fun hmin _ ↦ by simp [hmin, uclampNone]⟩
        simp only [Function.update_self]
        exact h.of_decBucket hon hon' hoff (fun b hb ↦ absurd (hempty b) hb)
          fun b hb ↦ absurd (hempty b) hb
  · have hlt : ((rq.uclamp id).bucket (se p).bucketId).tasks = 1 →
        ((rq.uclamp id).bucket (se p).bucketId).value < (rq.uclamp id).value := fun hone ↦
      lt_of_le_of_ne hle fun heq ↦ htop ⟨hone, heq⟩
    obtain ⟨b, hb, hbv⟩ := h.attained p hon
    -- the bucket that attains the maximum is not emptied
    have hbdec : ((rq.uclamp id).decBucket (se p) b).tasks ≠ 0 := by
      by_cases hbp : b = (se p).bucketId
      · subst hbp
        have : ((rq.uclamp id).bucket (se p).bucketId).tasks ≠ 1 := fun hone ↦
          absurd hbv (hlt hone).ne
        simp only [UclampRq.decBucket, Function.update_self]
        omega
      · simpa [UclampRq.decBucket, Function.update_of_ne hbp] using hb
    rw [uclampRqDecId_of_not_top hactive htasks hlt]
    refine ⟨?_, rfl, ?_, fun _ hno ↦ absurd (hnone.mp hno b) hbdec⟩
    · simp only [Function.update_self]
      exact h.of_decBucket hon hon' hoff
        (fun b' hb' ↦ h.bucket_le b' (UclampRq.tasks_of_decBucket hb')) fun _ _ ↦ ⟨b, hbdec, hbv⟩
    · simp only [hnone]
      exact ⟨.inl, fun ho ↦ ho.resolve_right fun hno ↦ hbdec (hno.2 b)⟩

end NcuKernel.Uclamp
