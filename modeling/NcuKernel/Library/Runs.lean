import Mathlib.Algebra.GroupWithZero.Nat
import Mathlib.Data.List.Forall2
import Mathlib.Logic.Function.Basic

/-!
# Runs of a deterministic labelled system

A system is a step function `σ → ι → σ`. Everything the environment decides
(who runs next, which arguments a caller passes, what an oracle answers) is
part of the label, so that one list of labels determines one run and two runs
over the same labels can be compared state by state.
-/

namespace NcuKernel.Runs

variable {σ τ ι κ γ : Type*}

def run (step : σ → ι → σ) : σ → List ι → σ
  | s, [] => s
  | s, l :: ls => run step (step s l) ls

@[simp] theorem run_nil (step : σ → ι → σ) (s : σ) : run step s [] = s := rfl

@[simp] theorem run_cons (step : σ → ι → σ) (s : σ) (l : ι) (ls : List ι) :
    run step s (l :: ls) = run step (step s l) ls := rfl

theorem run_append (step : σ → ι → σ) (s : σ) (ls ls' : List ι) :
    run step s (ls ++ ls') = run step (run step s ls) ls' := by
  induction ls generalizing s with
  | nil => rfl
  | cons l ls ih => exact ih (step s l)

/-- Every step of the run is taken in a state that allows it. -/
def Along (step : σ → ι → σ) (ok : σ → ι → Prop) : σ → List ι → Prop
  | _, [] => True
  | s, l :: ls => ok s l ∧ Along step ok (step s l) ls

/-- Every state of the run, the first and the last included, satisfies `P`. -/
def AllStates (step : σ → ι → σ) (P : σ → Prop) : σ → List ι → Prop
  | s, [] => P s
  | s, l :: ls => P s ∧ AllStates step P (step s l) ls

@[simp] theorem along_nil (step : σ → ι → σ) (ok : σ → ι → Prop) (s : σ) :
    Along step ok s [] := trivial

@[simp] theorem along_cons (step : σ → ι → σ) (ok : σ → ι → Prop) (s : σ) (l : ι)
    (ls : List ι) :
    Along step ok s (l :: ls) ↔ ok s l ∧ Along step ok (step s l) ls := Iff.rfl

theorem along_of_forall {step : σ → ι → σ} {ok : ι → Prop} {s : σ} {ls : List ι}
    (h : ∀ l ∈ ls, ok l) : Along step (fun _ l ↦ ok l) s ls := by
  induction ls generalizing s with
  | nil => trivial
  | cons l ls ih =>
      exact ⟨h l (by simp), ih fun m hm ↦ h m (by simp [hm])⟩

theorem Along.and {step : σ → ι → σ} {ok ok' : σ → ι → Prop} {s : σ} {ls : List ι}
    (h : Along step ok s ls) (h' : Along step ok' s ls) :
    Along step (fun s l ↦ ok s l ∧ ok' s l) s ls := by
  induction ls generalizing s with
  | nil => trivial
  | cons l ls ih => exact ⟨⟨h.1, h'.1⟩, ih h.2 h'.2⟩

theorem allStates_iff_take {step : σ → ι → σ} {P : σ → Prop} {s : σ} {ls : List ι} :
    AllStates step P s ls ↔ ∀ k, P (run step s (ls.take k)) := by
  induction ls generalizing s with
  | nil => simp [AllStates]
  | cons l ls ih =>
      constructor
      · rintro ⟨hs, hrest⟩ k
        cases k with
        | zero => exact hs
        | succ k => exact ih.mp hrest k
      · intro h
        exact ⟨h 0, ih.mpr fun k ↦ h (k + 1)⟩

/-! ## Invariants -/

theorem AllStates.imp {step : σ → ι → σ} {P Q : σ → Prop} {s : σ} {ls : List ι}
    (h : AllStates step P s ls) (himp : ∀ s, P s → Q s) : AllStates step Q s ls :=
  allStates_iff_take.mpr fun k ↦ himp _ (allStates_iff_take.mp h k)

/-- What the first state satisfies and every allowed step preserves holds in
every state of the run. -/
theorem allStates_of_along {step : σ → ι → σ} {ok : σ → ι → Prop} {P : σ → Prop}
    (hstep : ∀ s l, P s → ok s l → P (step s l)) {s : σ} {ls : List ι}
    (hs : P s) (h : Along step ok s ls) : AllStates step P s ls := by
  induction ls generalizing s with
  | nil => exact hs
  | cons l ls ih => exact ⟨hs, ih (hstep s l hs h.1) h.2⟩

theorem run_of_along {step : σ → ι → σ} {ok : σ → ι → Prop} {P : σ → Prop}
    (hstep : ∀ s l, P s → ok s l → P (step s l)) {s : σ} {ls : List ι}
    (hs : P s) (h : Along step ok s ls) : P (run step s ls) := by
  have hlast := allStates_iff_take.mp (allStates_of_along hstep hs h) ls.length
  rwa [List.take_length] at hlast

theorem allStates_of_step {step : σ → ι → σ} {P : σ → Prop}
    (hstep : ∀ s l, P s → P (step s l)) {s : σ} (hs : P s) (ls : List ι) :
    AllStates step P s ls := by
  have hall : Along step (fun _ _ ↦ True) s ls := along_of_forall fun _ _ ↦ trivial
  exact allStates_of_along (fun s l h _ ↦ hstep s l h) hs hall

theorem run_of_step {step : σ → ι → σ} {P : σ → Prop}
    (hstep : ∀ s l, P s → P (step s l)) {s : σ} (hs : P s) (ls : List ι) :
    P (run step s ls) := by
  have hlast := allStates_iff_take.mp (allStates_of_step hstep hs ls) ls.length
  rwa [List.take_length] at hlast

/-- What follows from an invariant and from the condition on a step holds at
every step of the run. -/
theorem along_of_invariant {step : σ → ι → σ} {ok ok' : σ → ι → Prop} {P : σ → Prop}
    (hstep : ∀ s l, P s → ok s l → P (step s l)) (himp : ∀ s l, P s → ok s l → ok' s l)
    {s : σ} {ls : List ι} (hs : P s) (h : Along step ok s ls) : Along step ok' s ls := by
  induction ls generalizing s with
  | nil => trivial
  | cons l ls ih => exact ⟨himp s l hs h.1, ih (hstep s l hs h.1) h.2⟩

/-- When a step preserves `P` exactly if it is allowed, the runs that stay in
`P` are exactly those all of whose steps are allowed. -/
theorem allStates_iff_along {step : σ → ι → σ} {ok : σ → ι → Prop} {P : σ → Prop}
    {s : σ} {ls : List ι} (hs : P s)
    (hstep : ∀ s l, l ∈ ls → P s → (P (step s l) ↔ ok s l)) :
    AllStates step P s ls ↔ Along step ok s ls := by
  induction ls generalizing s with
  | nil => simpa [AllStates] using hs
  | cons l ls ih =>
      have hl := hstep s l (by simp) hs
      have hrest : ∀ s m, m ∈ ls → P s → (P (step s m) ↔ ok s m) :=
        fun s m hm ↦ hstep s m (by simp [hm])
      constructor
      · rintro ⟨_, htail⟩
        have hnext : P (step s l) := by
          cases ls with
          | nil => exact htail
          | cons m ms => exact htail.1
        exact ⟨hl.mp hnext, (ih hnext hrest).mp htail⟩
      · rintro ⟨hok, htail⟩
        have hnext := hl.mpr hok
        exact ⟨hs, (ih hnext hrest).mpr htail⟩

/-- A run all of whose steps use up something is no longer than what there is to use up at
first and what its steps bring. -/
theorem length_add_le_of_decreasing {step : σ → ι → σ} {ok : σ → ι → Prop} {P : σ → Prop}
    {μ : σ → ℕ} {gain : ι → ℕ} (hstep : ∀ s l, P s → ok s l → P (step s l))
    (hdec : ∀ s l, P s → ok s l → μ (step s l) < μ s + gain l) {s : σ} {ls : List ι} (hs : P s)
    (h : Along step ok s ls) : ls.length + μ (run step s ls) ≤ μ s + (ls.map gain).sum := by
  induction ls generalizing s with
  | nil => simp
  | cons l ls ih =>
      have hrest := ih (hstep s l hs h.1) h.2
      have hfirst := hdec s l hs h.1
      simp only [List.length_cons, run_cons, List.map_cons, List.sum_cons]
      omega

/-! ## History variables -/

/-- Carry a history variable along: it sees the state and the label of each
step but never influences the state. -/
def instrument (step : σ → ι → σ) (record : σ → ι → γ → γ) : σ × γ → ι → σ × γ :=
  fun x l ↦ (step x.1 l, record x.1 l x.2)

@[simp] theorem instrument_fst (step : σ → ι → σ) (record : σ → ι → γ → γ)
    (x : σ × γ) (l : ι) : (instrument step record x l).1 = step x.1 l := rfl

@[simp] theorem instrument_snd (step : σ → ι → σ) (record : σ → ι → γ → γ)
    (x : σ × γ) (l : ι) : (instrument step record x l).2 = record x.1 l x.2 := rfl

@[simp] theorem run_instrument_fst (step : σ → ι → σ) (record : σ → ι → γ → γ)
    (x : σ × γ) (ls : List ι) :
    (run (instrument step record) x ls).1 = run step x.1 ls := by
  induction ls generalizing x with
  | nil => rfl
  | cons l ls ih => simpa using ih (instrument step record x l)

theorem along_instrument (step : σ → ι → σ) (record : σ → ι → γ → γ)
    (ok : σ → ι → Prop) {x : σ × γ} {ls : List ι} :
    Along (instrument step record) (fun y l ↦ ok y.1 l) x ls ↔ Along step ok x.1 ls := by
  induction ls generalizing x with
  | nil => simp
  | cons l ls ih => exact and_congr_right fun _ ↦ ih

/-! ## Two runs -/

/-- A relation kept by corresponding steps that both runs allow relates corresponding
states of two runs of any length. -/
theorem run_related {step₁ : σ → ι → σ} {step₂ : τ → κ → τ} {R : σ → τ → Prop}
    {C : ι → κ → Prop} {ok₁ : σ → ι → Prop} {ok₂ : τ → κ → Prop}
    (hstep : ∀ s t l m, R s t → C l m → ok₁ s l → ok₂ t m → R (step₁ s l) (step₂ t m))
    {s : σ} {t : τ} {ls : List ι} {ms : List κ} (hst : R s t) (hl : List.Forall₂ C ls ms)
    (h₁ : Along step₁ ok₁ s ls) (h₂ : Along step₂ ok₂ t ms) (k : ℕ) :
    R (run step₁ s (ls.take k)) (run step₂ t (ms.take k)) := by
  induction hl generalizing s t k with
  | nil => simpa using hst
  | @cons l m ls ms hlm _ ih =>
      cases k with
      | zero => exact hst
      | succ k => exact ih (hstep s t l m hst hlm h₁.1 h₂.1) h₁.2 h₂.2 k

end NcuKernel.Runs
