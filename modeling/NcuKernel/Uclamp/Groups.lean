import NcuKernel.Library.Hierarchy
import NcuKernel.Uclamp.Aggregate

/-!
# Effective clamps of task groups

`cpu_util_update_eff` walks down from the group that was written and leaves out the groups
below one whose effective clamps did not change. A group whose clamps do not fit those of
its parent is therefore always one that the walk is still going to visit, and when no walk
is under way the effective clamps are the most restrictive requests on the way to the root.
-/

namespace NcuKernel.Uclamp

open Runs Hierarchy
open Sched (ClampId schedCapacityScale)
open Function (update)

variable {P C G : Type*} {K : Config} {root : G} {s s' : State P C G} {p : P} {g x : G}
  {id : ClampId}

def State.parentOf (s : State P C G) (g : G) : Option G := (s.group g).parent

/-- The clamps of `g` are the ones `cpu_util_update_eff` would compute now. -/
def State.EffOk (s : State P C G) (g : G) : Prop :=
  ∀ id, ((s.group g).uclamp id).value = s.eff g id

/-- The walk is at `g`, or will come to it. -/
def State.Covered (s : State P C G) (g : G) : Prop :=
  match s.walker with
  | .idle => False
  | .visit stack => g ∈ stack
  | .store x _ stack => g = x ∨ s.parentOf g = some x ∨ g ∈ stack
  | .iterate x _ stack => s.parentOf g = some x ∨ g ∈ stack

/-- The groups form a tree. -/
structure Tree (root : G) (s : State P C G) : Prop where
  root_online : (s.group root).online = true
  root_parent : s.parentOf root = none
  top : ∀ g, (s.group g).online = true → s.parentOf g = none → g = root
  rooted : ∀ g, (s.group g).online = true →
    ∃ l, Ancestry s.parentOf g l ∧ ∀ b ∈ l, (s.group b).online = true
  child : ∀ g q, (s.group g).online = true → s.parentOf g = some q → g ∈ (s.group q).children

structure Consistent (root : G) (s : State P C G) : Prop extends Tree root s where
  settled : ∀ g, (s.group g).online = true → s.EffOk g ∨ s.Covered g
  storing : ∀ g eff stack, s.walker = .store g eff stack → (s.group g).online = true →
    (∀ x ∈ eff, x.2 = s.eff g x.1) ∧
      ∀ id, (id, s.eff g id) ∈ eff ∨ ((s.group g).uclamp id).value = s.eff g id

theorem Tree.parent_online (h : Tree root s) (hg : (s.group g).online = true)
    (hp : s.parentOf g = some x) : (s.group x).online = true := by
  obtain ⟨l, hl, hon⟩ := h.rooted g hg
  cases hl with
  | top hnone => simp [hnone] at hp
  | step hstep hb =>
      obtain rfl := Option.some.inj (hstep.symm.trans hp)
      exact hon _ (by simp [hb.mem_self])

theorem Tree.parent_ne_self (h : Tree root s) (hg : (s.group g).online = true) :
    s.parentOf g ≠ some g := by
  obtain ⟨l, hl, -⟩ := h.rooted g hg
  exact hl.parent_ne_self

theorem Tree.leaf_of_offline (h : Tree root s) (hg : (s.group g).online = false)
    (hx : (s.group x).online = true) : s.parentOf x ≠ some g := fun hp ↦ by
  simp [h.parent_online hx hp] at hg

theorem Tree.congr (h : Tree root s) (hparent : ∀ x, s'.parentOf x = s.parentOf x)
    (hchildren : ∀ x, (s'.group x).children = (s.group x).children)
    (honline : ∀ x, (s'.group x).online = (s.group x).online) : Tree root s' where
  root_online := by
    rw [honline]
    exact h.root_online
  root_parent := by
    rw [hparent]
    exact h.root_parent
  top g hg hp := h.top g (honline g ▸ hg) (hparent g ▸ hp)
  rooted g hg := by
    obtain ⟨l, hl, hon⟩ := h.rooted g (honline g ▸ hg)
    exact ⟨l, hl.congr fun b _ ↦ hparent b, fun b hb ↦ (honline b).trans (hon b hb)⟩
  child g q hg hp := by
    rw [hchildren]
    exact h.child g q (honline g ▸ hg) (hparent g ▸ hp)

theorem eff_congr (hreq : (s'.group g).uclampReq = (s.group g).uclampReq)
    (hparent : s'.parentOf g = s.parentOf g)
    (hp : ∀ q, s.parentOf g = some q → (s'.group q).uclamp = (s.group q).uclamp) :
    s'.eff g = s.eff g := by
  have hcapped : ∀ id, s'.capped g id = s.capped g id := fun id ↦ by
    have hparent' : (s'.group g).parent = (s.group g).parent := hparent
    simp only [State.capped, hreq, hparent']
    cases hq : (s.group g).parent with
    | none => rfl
    | some q => simp only [hp q hq]
  funext id
  cases id <;> simp only [State.eff, hcapped]

theorem effOk_congr (hreq : (s'.group g).uclampReq = (s.group g).uclampReq)
    (heff : (s'.group g).uclamp = (s.group g).uclamp) (hparent : s'.parentOf g = s.parentOf g)
    (hp : ∀ q, s.parentOf g = some q → (s'.group q).uclamp = (s.group q).uclamp)
    (h : s.EffOk g) : s'.EffOk g := fun id ↦ by
  rw [eff_congr hreq hparent hp, heff]
  exact h id

theorem Consistent.congr (h : Consistent root s) (hs : SameGroups s s') : Consistent root s' := by
  have hparent : ∀ x, s'.parentOf x = s.parentOf x := fun x ↦ by
    rw [State.parentOf, State.parentOf, hs.group]
  have heff : ∀ x, s'.eff x = s.eff x := fun x ↦
    eff_congr (by rw [hs.group]) (hparent x) fun q _ ↦ by rw [hs.group]
  refine ⟨h.toTree.congr hparent (by simp [hs.group]) (by simp [hs.group]), fun x hx ↦ ?_, ?_⟩
  · refine (h.settled x (hs.group ▸ hx)).imp (fun hok id ↦ ?_) fun hcov ↦ ?_
    · rw [heff, hs.group]
      exact hok id
    · simpa only [State.Covered, hs.walker, hparent] using hcov
  · intro x eff stack hw hx
    rw [heff, hs.group]
    exact h.storing x eff stack (hs.walker ▸ hw) (hs.group ▸ hx)

/-- The walk goes on without storing anything. -/
theorem Consistent.setWalker (h : Consistent root s) {walker : Walker P G}
    (hcov : ∀ x, (s.group x).online = true → s.EffOk x ∨ { s with walker := walker }.Covered x)
    (hstore : ∀ x eff stack, walker = .store x eff stack → (s.group x).online = true →
      (∀ y ∈ eff, y.2 = s.eff x y.1) ∧
        ∀ id, (id, s.eff x id) ∈ eff ∨ ((s.group x).uclamp id).value = s.eff x id) :
    Consistent root { s with walker := walker } :=
  ⟨h.toTree.congr (fun _ ↦ rfl) (fun _ ↦ rfl) fun _ ↦ rfl, hcov, hstore⟩

theorem effOk_of_clamps (h : s.clamps g = []) : s.EffOk g := fun id ↦ by
  by_contra hne
  have hmem : (id, s.eff g id) ∈ s.clamps g := State.mem_clamps.mpr ⟨rfl, Ne.symm hne⟩
  simp [h] at hmem

theorem Consistent.effOk_of_idle (h : Consistent root s) (hidle : s.walker.isIdle = true)
    (hx : (s.group x).online = true) : s.EffOk x := by
  refine (h.settled x hx).resolve_right fun hcov ↦ ?_
  cases hw : s.walker <;> simp_all [State.Covered, Walker.isIdle]

/-- A new request starts a walk at its group. -/
theorem Consistent.request (h : Consistent root s) (hidle : s.walker.isIdle = true)
    (hw : s'.walker = .visit [g])
    (hgroup : ∀ x, (s'.group x).uclamp = (s.group x).uclamp ∧ s'.parentOf x = s.parentOf x ∧
      (s'.group x).children = (s.group x).children ∧ (s'.group x).online = (s.group x).online)
    (hreq : ∀ x ≠ g, (s'.group x).uclampReq = (s.group x).uclampReq) : Consistent root s' := by
  refine ⟨h.toTree.congr (fun x ↦ (hgroup x).2.1) (fun x ↦ (hgroup x).2.2.1)
    fun x ↦ (hgroup x).2.2.2, fun x hx ↦ ?_, fun x eff stack hst ↦ by simp [hw] at hst⟩
  by_cases hxg : x = g
  · exact .inr (by simp [State.Covered, hw, hxg])
  · exact .inl (effOk_congr (hreq x hxg) (hgroup x).1 (hgroup x).2.1 (fun q _ ↦ (hgroup q).1)
      (h.effOk_of_idle hidle ((hgroup x).2.2.2 ▸ hx)))

/-- `s'` differs from `s` in a group `g` without groups below it, and in who is entered as
a child of its parent. -/
structure SameBut (g : G) (s s' : State P C G) : Prop where
  uclampReq : ∀ x ≠ g, (s'.group x).uclampReq = (s.group x).uclampReq
  uclamp : ∀ x ≠ g, (s'.group x).uclamp = (s.group x).uclamp
  parent : ∀ x ≠ g, s'.parentOf x = s.parentOf x
  online : ∀ x ≠ g, (s'.group x).online = (s.group x).online
  children : ∀ x ≠ g, ∀ y ≠ g, y ∈ (s.group x).children → y ∈ (s'.group x).children
  leaf : ∀ x ≠ g, (s.group x).online = true → s.parentOf x ≠ some g

section SameBut

variable (h : SameBut g s s') (ht : Tree root s)

include h ht

theorem SameBut.rooted (hx : (s.group x).online = true) (hne : x ≠ g) :
    ∃ l, Ancestry s'.parentOf x l ∧ ∀ b ∈ l, (s'.group b).online = true := by
  obtain ⟨l, hl, hall⟩ := ht.rooted x hx
  have hmem : ∀ b ∈ l, b ≠ g := by
    rintro b hb rfl
    rcases hl.eq_or_exists_child hb with rfl | ⟨c, hc, hp⟩
    · exact hne rfl
    · by_cases hcb : c = b
      · subst hcb
        exact ht.parent_ne_self (hall c hc) hp
      · exact h.leaf c hcb (hall c hc) hp
  exact ⟨l, hl.congr fun b hb ↦ h.parent b (hmem b hb), fun b hb ↦
    (h.online b (hmem b hb)).trans (hall b hb)⟩

theorem SameBut.child {q : G} (hx : (s.group x).online = true) (hne : x ≠ g)
    (hp : s'.parentOf x = some q) : x ∈ (s'.group q).children := by
  rw [h.parent x hne] at hp
  have hq : q ≠ g := fun heq ↦ h.leaf x hne hx (heq ▸ hp)
  exact h.children q hq x hne (ht.child x q hx hp)

omit ht in
theorem SameBut.eff (hx : (s.group x).online = true) (hne : x ≠ g) : s'.eff x = s.eff x :=
  eff_congr (h.uclampReq x hne) (h.parent x hne) fun q hq ↦
    h.uclamp q fun heq ↦ h.leaf x hne hx (heq ▸ hq)

omit ht in
theorem SameBut.effOk (hx : (s.group x).online = true) (hne : x ≠ g) (hok : s.EffOk x) :
    s'.EffOk x := fun id ↦ by
  rw [h.eff hx hne, h.uclamp x hne]
  exact hok id

end SameBut

/-- A group goes offline, or nobody sees it yet. -/
theorem Consistent.of_offline (h : Consistent root s) (hb : SameBut g s s') (hroot : root ≠ g)
    (hw : s'.walker = s.walker) (hg : (s'.group g).online = false) : Consistent root s' := by
  have hon : ∀ x, (s'.group x).online = true → (s.group x).online = true ∧ x ≠ g := fun x hx ↦ by
    have hxg : x ≠ g := fun heq ↦ by simp [heq, hg] at hx
    exact ⟨hb.online x hxg ▸ hx, hxg⟩
  refine ⟨⟨?_, ?_, fun x hx hp ↦ ?_, fun x hx ↦ ?_, fun x q hx hp ↦ ?_⟩, fun x hx ↦ ?_,
    fun x eff stack hst hx ↦ ?_⟩
  · rw [hb.online root hroot]
    exact h.root_online
  · rw [hb.parent root hroot]
    exact h.root_parent
  · exact h.top x (hon x hx).1 (hb.parent x (hon x hx).2 ▸ hp)
  · exact hb.rooted h.toTree (hon x hx).1 (hon x hx).2
  · exact hb.child h.toTree (hon x hx).1 (hon x hx).2 hp
  · obtain ⟨hx, hxg⟩ := hon x hx
    refine (h.settled x hx).imp (hb.effOk hx hxg) fun hcov ↦ ?_
    simpa only [State.Covered, hw, hb.parent x hxg] using hcov
  · obtain ⟨hx, hxg⟩ := hon x hx
    rw [hb.eff hx hxg, hb.uclamp x hxg]
    exact h.storing x eff stack (hw ▸ hst) hx

/-- A group comes online below `x`, and a walk starts at it. -/
theorem Consistent.of_online (h : Consistent root s) (hb : SameBut g s s') (hroot : root ≠ g)
    (hidle : s.walker.isIdle = true) (hw : s'.walker = .visit [g]) (hxg : x ≠ g)
    (hx : (s.group x).online = true) (hparent : s'.parentOf g = some x)
    (hmem : g ∈ (s'.group x).children) : Consistent root s' := by
  have hon : ∀ y ≠ g, (s'.group y).online = true → (s.group y).online = true := fun y hy hon ↦
    hb.online y hy ▸ hon
  refine ⟨⟨?_, ?_, fun y hy hp ↦ ?_, fun y hy ↦ ?_, fun y q hy hp ↦ ?_⟩, fun y hy ↦ ?_, ?_⟩
  · rw [hb.online root hroot]
    exact h.root_online
  · rw [hb.parent root hroot]
    exact h.root_parent
  · have hyg : y ≠ g := fun heq ↦ by simp [heq, hparent] at hp
    exact h.top y (hon y hyg hy) (hb.parent y hyg ▸ hp)
  · by_cases hyg : y = g
    · subst hyg
      obtain ⟨l, hl, hall⟩ := hb.rooted h.toTree hx hxg
      refine ⟨y :: l, .step hparent hl, fun b hb ↦ ?_⟩
      rcases List.mem_cons.mp hb with rfl | hb
      · exact hy
      · exact hall b hb
    · exact hb.rooted h.toTree (hon y hyg hy) hyg
  · by_cases hyg : y = g
    · subst hyg
      obtain rfl := Option.some.inj (hparent.symm.trans hp)
      exact hmem
    · exact hb.child h.toTree (hon y hyg hy) hyg hp
  · by_cases hyg : y = g
    · exact .inr (by simp [State.Covered, hw, hyg])
    · exact .inl (hb.effOk (hon y hyg hy) hyg (h.effOk_of_idle hidle (hon y hyg hy)))
  · intro y eff stack hst
    simp [hw] at hst

variable [DecidableEq G]

/-- One value of the group that the walk is at is stored. -/
theorem Consistent.store (h : Consistent root s) (hr : Ranges K s) {value : ℕ}
    {eff : List (ClampId × ℕ)} {stack : List G}
    (hw : s.walker = .store g ((id, value) :: eff) stack) :
    Consistent root { s.storeEff K g id value with walker := .store g eff stack } := by
  set s' : State P C G := { s.storeEff K g id value with walker := .store g eff stack } with hs'
  have hgroup : ∀ x ≠ g, s'.group x = s.group x := fun x hx ↦ by
    simp [hs', State.storeEff, State.setGroup, hx]
  have hself : s'.group g = { s.group g with uclamp := (s'.group g).uclamp } := by
    simp [hs', State.storeEff, State.setGroup]
  have hfield : ∀ x, (s'.group x).uclampReq = (s.group x).uclampReq ∧
      s'.parentOf x = s.parentOf x ∧ (s'.group x).children = (s.group x).children ∧
      (s'.group x).online = (s.group x).online := fun x ↦ by
    by_cases hx : x = g
    · subst hx
      rw [State.parentOf, hself]
      exact ⟨rfl, rfl, rfl, rfl⟩
    · rw [State.parentOf, hgroup x hx]
      exact ⟨rfl, rfl, rfl, rfl⟩
  have heff : ∀ x, s.parentOf x ≠ some g → s'.eff x = s.eff x := fun x hx ↦
    eff_congr (hfield x).1 (hfield x).2.1 fun q hq ↦ by
      rw [hgroup q fun heq ↦ hx (heq ▸ hq)]
  refine ⟨h.toTree.congr (fun x ↦ (hfield x).2.1) (fun x ↦ (hfield x).2.2.1)
    fun x ↦ (hfield x).2.2.2, fun x hx ↦ ?_, ?_⟩
  · by_cases hxg : x = g ∨ s.parentOf x = some g
    · refine .inr ?_
      simp only [State.Covered, hs', ← or_assoc]
      exact .inl (hxg.imp_right fun hp ↦ ((hfield x).2.1).trans hp)
    · push Not at hxg
      rw [(hfield x).2.2.2] at hx
      refine (h.settled x hx).imp (fun hok id' ↦ ?_) fun hcov ↦ ?_
      · rw [heff x hxg.2, hgroup x hxg.1]
        exact hok id'
      · simp only [State.Covered, hw] at hcov
        simp only [State.Covered, hs']
        exact .inr (.inr (hcov.resolve_left hxg.1 |>.resolve_left hxg.2))
  · rintro _ _ _ ⟨⟩ hon
    rw [(hfield g).2.2.2] at hon
    obtain ⟨hval, hdone⟩ := h.storing g _ _ hw hon
    rw [heff g (h.toTree.parent_ne_self hon)]
    refine ⟨fun y hy ↦ hval y (by simp [hy]), fun id' ↦ ?_⟩
    have hv : value = s.eff g id := hval (id, value) (by simp)
    by_cases hid : id' = id
    · -- the value fits into the bit field
      subst hid
      have hle := (s.eff_le_req g id').trans (hr.groupReq g id')
      refine .inr ?_
      simp only [hs', State.storeEff, State.setGroup, Function.update_self, hv]
      exact Nat.mod_eq_of_lt (by simp [schedCapacityScale] at hle; omega)
    · refine (hdone id').imp (fun hmem ↦ ?_) fun heq ↦ ?_
      · rcases List.mem_cons.mp hmem with heq | hmem
        · exact absurd (Prod.mk.inj heq).1 hid
        · exact hmem
      · rw [← heq]
        simp [hs', State.storeEff, State.setGroup, hid]

/-- One step of the walk. -/
theorem Consistent.utilUpdateEff [Fintype P] [DecidableEq P] (h : Consistent root s)
    (hr : Ranges K s) (hs : s.utilUpdateEff K = some s') : Consistent root s' := by
  simp only [State.utilUpdateEff] at hs
  split at hs
  · cases hs
  · rename_i hw
    cases hs
    refine h.setWalker (fun x hx ↦ ?_) (by simp)
    have hcov := h.settled x hx
    simp only [State.Covered, hw, List.not_mem_nil, or_false] at hcov
    exact .inl hcov
  · rename_i g stack hw
    have hcov : ∀ x, (s.group x).online = true → s.EffOk x ∨ x = g ∨ x ∈ stack := fun x hx ↦ by
      simpa [State.Covered, hw] using h.settled x hx
    split_ifs at hs with hnone <;> cases hs
    · -- the group itself fits, so the groups below it do
      refine h.setWalker (fun x hx ↦ ?_) (by simp)
      rcases hcov x hx with hok | rfl | hmem
      · exact .inl hok
      · exact .inl (effOk_of_clamps hnone)
      · exact .inr hmem
    · refine h.setWalker (fun x hx ↦ (hcov x hx).imp_right fun hc ↦ ?_) ?_
      · exact hc.imp_right .inr
      · rintro _ _ _ ⟨⟩ -
        refine ⟨fun y hy ↦ (State.mem_clamps.mp hy).1, fun id ↦ ?_⟩
        by_cases heq : ((s.group g).uclamp id).value = s.eff g id
        · exact .inr heq
        · exact .inl (State.mem_clamps.mpr ⟨rfl, Ne.symm heq⟩)
  · rename_i hw
    cases hs
    exact h.store hr hw
  · rename_i g stack hw
    cases hs
    refine h.setWalker (fun x hx ↦ ?_) (by simp)
    rcases h.settled x hx with hok | hcov
    · exact .inl hok
    · simp only [State.Covered, hw] at hcov
      rcases hcov with rfl | hcov
      · refine .inl fun id ↦ ?_
        simpa using (h.storing x [] stack hw hx).2 id
      · exact .inr hcov
  · rename_i g pending stack hw
    split_ifs at hs
    cases hs
    refine h.setWalker (fun x hx ↦ (h.settled x hx).imp_right fun hcov ↦ ?_) (by simp)
    simp only [State.Covered, hw] at hcov
    simp only [State.Covered, List.mem_append]
    exact hcov.imp_left (h.child x g hx)

theorem sameBut_setGroup {tg : TaskGroup G}
    (hleaf : ∀ x ≠ g, (s.group x).online = true → s.parentOf x ≠ some g) :
    SameBut g s (s.setGroup g tg) := by
  have hne : ∀ x ≠ g, (s.setGroup g tg).group x = s.group x := fun x hx ↦ by
    simp [State.setGroup, hx]
  refine ⟨fun x hx ↦ ?_, fun x hx ↦ ?_, fun x hx ↦ ?_, fun x hx ↦ ?_, fun x hx y _ hy ↦ ?_, hleaf⟩
  · rw [hne x hx]
  · rw [hne x hx]
  · rw [State.parentOf, State.parentOf, hne x hx]
  · rw [hne x hx]
  · rwa [hne x hx]

theorem SameBut.setChildren {l : List G} (h : SameBut g s s') (hx : x ≠ g)
    (hl : ∀ y ≠ g, y ∈ (s'.group x).children → y ∈ l) :
    SameBut g s (s'.setGroup x { s'.group x with children := l }) := by
  have hfield : ∀ y, (s'.setGroup x { s'.group x with children := l }).group y =
      { s'.group y with children := if y = x then l else (s'.group y).children } := fun y ↦ by
    by_cases hy : y = x <;> simp [State.setGroup, hy]
  refine ⟨fun y hy ↦ ?_, fun y hy ↦ ?_, fun y hy ↦ ?_, fun y hy ↦ ?_,
    fun y hy z hz hmem ↦ ?_, h.leaf⟩
  · rw [hfield, h.uclampReq y hy]
  · rw [hfield, h.uclamp y hy]
  · rw [State.parentOf, hfield, ← h.parent y hy]
    rfl
  · rw [hfield, h.online y hy]
  · rw [hfield]
    have := h.children y hy z hz hmem
    by_cases hyx : y = x
    · subst hyx
      simpa using hl z hz this
    · simpa [hyx] using this

theorem Consistent.updateRootTg (h : Consistent root s) (hidle : s.walker.isIdle = true)
    (hgroup : s'.group = s.group) : Consistent root (s'.uclampUpdateRootTg K root) := by
  refine h.request hidle (g := root) rfl (fun x ↦ ?_) fun x hx ↦ ?_
  · by_cases hx : x = root <;>
      simp [State.uclampUpdateRootTg, State.setGroup, State.parentOf, hgroup, hx]
  · simp [State.uclampUpdateRootTg, State.setGroup, hgroup, hx]

theorem Consistent.next [Fintype P] [DecidableEq P] [DecidableEq C] {l : Label P C G}
    (h : Consistent root s) (hr : Ranges K s) (hs : next K root s l = some s') :
    Consistent root s' := by
  by_cases hl : l.onTask = true
  · exact h.congr (sameGroups_of_next hs hl)
  cases l with
  | cssAlloc g parent =>
      simp only [Uclamp.next, Bool.and_eq_true, Bool.not_eq_true'] at hs
      split_ifs at hs with hcond
      cases hs
      have hleaf : ∀ x ≠ g, (s.group x).online = true → s.parentOf x ≠ some g := fun x _ hx ↦
        h.toTree.leaf_of_offline hcond.1 hx
      refine h.of_offline (sameBut_setGroup hleaf) ?_ rfl
        (by simp [State.allocGroup, State.setGroup])
      rintro rfl
      simp [h.root_online] at hcond
  | cssOnline g x =>
      simp only [Uclamp.next, Bool.and_eq_true, Bool.not_eq_true'] at hs
      split_ifs at hs with hcond
      cases hs
      obtain ⟨⟨hidle, hg⟩, hx⟩ := hcond
      have hroot : root ≠ g := fun heq ↦ by simp [← heq, h.root_online] at hg
      have hxg : x ≠ g := fun heq ↦ by simp [← heq, hx] at hg
      have hb : SameBut g s (s.onlineGroup g x) :=
        let hg := sameBut_setGroup fun y _ hy ↦ h.toTree.leaf_of_offline hg hy
        let hc := hg.setChildren (x := x) hxg fun y _ hy ↦ List.mem_append_left [g] hy
        ⟨hc.1, hc.2, hc.3, hc.4, hc.5, hc.6⟩
      refine h.of_online hb hroot hidle rfl hxg hx ?_ ?_
      · simp [State.onlineGroup, State.setGroup, State.parentOf, hxg.symm]
      · simp [State.onlineGroup, State.setGroup]
  | cssReleased g =>
      simp only [Uclamp.next, Bool.and_eq_true, decide_eq_true_eq] at hs
      split_ifs at hs with hcond
      cases hs
      obtain ⟨⟨hg, hroot⟩, hempty⟩ := hcond
      have hleaf : ∀ x ≠ g, (s.group x).online = true → s.parentOf x ≠ some g := fun x _ hx hp ↦ by
        have := h.child x g hx hp
        simp [hempty.1] at this
      have hb : SameBut g s (s.setGroup g { s.group g with online := false }) :=
        sameBut_setGroup hleaf
      simp only [State.releaseGroup]
      split
      · exact h.of_offline hb (Ne.symm hroot) rfl (by simp [State.setGroup])
      · rename_i q hq
        have hqg : q ≠ g := fun heq ↦ h.toTree.parent_ne_self hg (heq ▸ hq)
        refine h.of_offline (hb.setChildren hqg fun y hy hmem ↦ (List.mem_erase_of_ne hy).mpr hmem)
          (Ne.symm hroot) rfl ?_
        simp [State.setGroup, hqg.symm]
  | uclampWrite g id input =>
      simp only [Uclamp.next, Bool.and_eq_true, decide_eq_true_eq] at hs
      split_ifs at hs with hcond
      obtain ⟨req, -, rfl⟩ := Option.map_eq_some_iff.mp hs
      refine h.request hcond.1.1 (g := g) rfl (fun x ↦ ?_) fun x hx ↦ ?_
      · by_cases hx : x = g <;> simp [State.cpuUclampWrite, State.setGroup, State.parentOf, hx]
      · simp [State.cpuUclampWrite, State.setGroup, hx]
  | sysctl which value =>
      simp only [Uclamp.next] at hs
      split_ifs at hs with hidle
      cases hs
      rcases sysctlSchedUclampHandler_cases K root s which value with
        heq | ⟨-, -, heq⟩ | ⟨-, -, -, heq⟩ | ⟨-, heq⟩ <;> rw [heq]
      · exact h
      · exact h.updateRootTg hidle rfl
      · exact h.updateRootTg hidle rfl
      · exact ⟨h.toTree.congr (fun _ ↦ rfl) (fun _ ↦ rfl) fun _ ↦ rfl, h.settled, h.storing⟩
  | walk => exact h.utilUpdateEff hr hs
  | updateActive p =>
      simp only [Uclamp.next] at hs
      split at hs
      · rename_i g pending stack hw
        split_ifs at hs
        cases hs
        have ho := (OnlyClamps.updateActive K root s p).sameGroups
        refine (h.congr ho).setWalker (fun x hx ↦ ?_) (by simp)
        refine ((h.congr ho).settled x hx).imp_right fun hcov ↦ ?_
        simp only [State.Covered, ho.walker, hw] at hcov
        exact hcov
      · cases hs
  | _ => simp [Label.onTask] at hl

section

omit [DecidableEq G]

theorem State.capped_of_top (hp : s.parentOf g = none) :
    s.capped g id = ((s.group g).uclampReq id).value := by
  have hp' : (s.group g).parent = none := hp
  simp [State.capped, hp']

theorem State.capped_of_parent (hp : s.parentOf g = some x) :
    s.capped g id = min ((s.group g).uclampReq id).value ((s.group x).uclamp id).value := by
  have hp' : (s.group g).parent = some x := hp
  simp only [State.capped, hp']
  split_ifs <;> omega

/-- Locally right clamps are the most restrictive requests on the way up. -/
theorem isLeast_of_effOk {l : List G} (hl : Ancestry s.parentOf g l)
    (hok : ∀ b ∈ l, s.EffOk b ∧ ∀ c, s.parentOf b = some c → s.EffOk c) :
    IsLeast (Set.image (fun b ↦ ((s.group b).uclampReq .max).value) {b | b ∈ l})
      ((s.group g).uclamp .max).value ∧
    IsLeast (Set.image (fun b ↦
        min ((s.group b).uclampReq .min).value ((s.group b).uclampReq .max).value) {b | b ∈ l})
      ((s.group g).uclamp .min).value := by
  constructor
  · refine hl.isLeast (f := fun b ↦ ((s.group b).uclamp .max).value) (fun b hb hp ↦ ?_)
      fun b hb c hp ↦ ?_
    · exact ((hok b hb).1 .max).trans (State.capped_of_top hp)
    · exact ((hok b hb).1 .max).trans (State.capped_of_parent hp)
  · refine hl.isLeast (f := fun b ↦ ((s.group b).uclamp .min).value) (fun b hb hp ↦ ?_)
      fun b hb c hp ↦ ?_
    · rw [(hok b hb).1 .min, State.eff, State.capped_of_top hp, State.capped_of_top hp]
    · -- the minimum of the parent is below its maximum already
      have hle : ((s.group c).uclamp .min).value ≤ ((s.group c).uclamp .max).value := by
        rw [(hok b hb).2 c hp .min, (hok b hb).2 c hp .max]
        exact min_le_right _ _
      rw [(hok b hb).1 .min, State.eff, State.capped_of_parent hp, State.capped_of_parent hp]
      omega

end

variable [Fintype P] [DecidableEq P] [DecidableEq C]

/-- What `cpu_util_update_eff` relies on from one call to the next. -/
structure GroupInv (K : Config) (root : G) (s : State P C G) : Prop where
  ranges : Ranges K s
  consistent : Consistent root s

theorem GroupInv.step (h : GroupInv K root s) (l : Label P C G) :
    GroupInv K root (step K root s l) := by
  rw [Uclamp.step]
  cases hs : Uclamp.next K root s l with
  | none => exact h
  | some s' => exact ⟨h.ranges.next hs, h.consistent.next h.ranges hs⟩

omit [DecidableEq P] in
theorem groupInv_init (K : Config) (root : G) (boot : C) :
    GroupInv K root (State.init K root boot : State P C G) where
  ranges := (sound_init K root boot).ranges
  consistent :=
    { root_online := by simp [State.init]
      root_parent := rfl
      top := fun g hg _ ↦ by simpa [State.init] using hg
      rooted := fun g hg ↦ ⟨[g], .top rfl, fun b hb ↦ by simpa [List.mem_singleton.mp hb] using hg⟩
      child := fun g q _ hp ↦ by simp [State.parentOf, State.init] at hp
      settled := fun g _ ↦ .inl fun id ↦ by
        cases id <;> simp [State.eff, State.capped, State.init]
      storing := fun g eff stack hw ↦ by simp [State.init] at hw }

theorem allStates_of_groupInv {Q : State P C G → Prop} (hQ : ∀ s, GroupInv K root s → Q s)
    (boot : C) (ls : List (Label P C G)) :
    AllStates (step K root) Q (State.init K root boot) ls :=
  (allStates_of_step (fun _ l h ↦ h.step l) (groupInv_init K root boot) ls).imp hQ

/-- Whenever no walk is under way, every group has a way to the root, its effective maximum is
the least maximum requested on it, and its effective minimum the least value requested on
it, minimum or maximum. -/
theorem effective_clamps_most_restrictive (K : Config) (root : G) (boot : C)
    (ls : List (Label P C G)) :
    AllStates (step K root) (fun s ↦ s.walker = .idle → ∀ g, (s.group g).online = true →
      ∃ l, Ancestry s.parentOf g l ∧ root ∈ l ∧
        IsLeast (Set.image (fun b ↦ ((s.group b).uclampReq .max).value) {b | b ∈ l})
          ((s.group g).uclamp .max).value ∧
        IsLeast (Set.image (fun b ↦ min ((s.group b).uclampReq .min).value
            ((s.group b).uclampReq .max).value) {b | b ∈ l})
          ((s.group g).uclamp .min).value) (State.init K root boot) ls := by
  refine allStates_of_groupInv (fun s h hw g hg ↦ ?_) boot ls
  obtain ⟨l, hl, hon⟩ := h.consistent.rooted g hg
  have hidle : s.walker.isIdle = true := by rw [hw]; rfl
  have hok : ∀ b, (s.group b).online = true → s.EffOk b := fun b hb ↦
    h.consistent.effOk_of_idle hidle hb
  have hroot : root ∈ l := by
    obtain ⟨b, hb, hp⟩ := hl.exists_top
    exact h.consistent.top b (hon b hb) hp ▸ hb
  exact ⟨l, hl, hroot, isLeast_of_effOk hl fun b hb ↦ ⟨hok b (hon b hb), fun c hc ↦
    hok c (h.consistent.toTree.parent_online (hon b hb) hc)⟩⟩

/-- A group that is granted 40 to 50 per cent, and one below it that asks for 80. -/
def nestedRun : List (Label Unit Unit (Option Bool)) :=
  [.cssAlloc (some false) none, .cssOnline (some false) none] ++ List.replicate 6 .walk ++
    [.uclampWrite (some false) .min (.percent 4000)] ++ List.replicate 5 .walk ++
    [.uclampWrite (some false) .max (.percent 5000)] ++ List.replicate 5 .walk ++
    [.cssAlloc (some true) (some false), .cssOnline (some true) (some false)] ++
    List.replicate 5 .walk ++ [.uclampWrite (some true) .min (.percent 8000)] ++
    List.replicate 5 .walk

theorem effective_clamps_most_restrictive_nested :
    let s := run (step fiveBuckets none) (State.init fiveBuckets none ()) nestedRun
    s.walker = .idle ∧ ((s.group (some true)).uclampReq .min).value = 819 ∧
      ∃ l, Ancestry s.parentOf (some true) l ∧ none ∈ l ∧
        IsLeast (Set.image (fun b ↦ ((s.group b).uclampReq .max).value) {b | b ∈ l}) 512 ∧
        IsLeast (Set.image (fun b ↦ min ((s.group b).uclampReq .min).value
          ((s.group b).uclampReq .max).value) {b | b ∈ l}) 410 := by
  intro s
  have hend := allStates_iff_take.mp
    (effective_clamps_most_restrictive fiveBuckets none () nestedRun) nestedRun.length
  rw [List.take_length] at hend
  have hidle : s.walker = .idle := by rfl
  have hmax : ((s.group (some true)).uclamp .max).value = 512 := by decide +kernel
  have hmin : ((s.group (some true)).uclamp .min).value = 410 := by decide +kernel
  obtain ⟨l, hl, hroot, hleast⟩ := hend hidle (some true) (by decide +kernel)
  exact ⟨hidle, by decide +kernel, l, hl, hroot, hmax ▸ hleast.1, hmin ▸ hleast.2⟩

end NcuKernel.Uclamp
