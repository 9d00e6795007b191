import Mathlib.Data.List.Forall2

/-!
# Walks through levels of tables

A walk descends from table to table. At each level an address selects one entry
of the current table, and the entry is empty, leads to a table of the next level,
or ends the walk with a page. Nothing bounds the set of tables: a memory maps
every table name to its entries.
-/

namespace NcuKernel.Radix

variable {A T I E P Q : Type*}

inductive Entry (T P : Type*) where
  | empty
  | table (t : T)
  | page (p : P)

def Entry.map (g : P → Q) : Entry T P → Entry T Q
  | .empty => .empty
  | .table t => .table t
  | .page p => .page (g p)

/-- How one level reads an address and decodes the entry it selects. -/
structure Level (A T I E P : Type*) where
  index : A → I
  decode : A → E → Entry T P

def walk (mem : T → I → E) (a : A) : List (Level A T I E P) → T → Option P
  | [], _ => none
  | l :: ls, t =>
      match l.decode a (mem t (l.index a)) with
      | .empty => none
      | .page p => some p
      | .table t' => walk mem a ls t'

variable {mem mem' : T → I → E} {a : A}

theorem walk_of_empty {l : Level A T I E P} {ls : List (Level A T I E P)} {t : T}
    (h : l.decode a (mem t (l.index a)) = .empty) : walk mem a (l :: ls) t = none := by
  simp [walk, h]

theorem walk_of_page {l : Level A T I E P} {ls : List (Level A T I E P)} {t : T} {p : P}
    (h : l.decode a (mem t (l.index a)) = .page p) : walk mem a (l :: ls) t = some p := by
  simp [walk, h]

theorem walk_of_table {l : Level A T I E P} {ls : List (Level A T I E P)} {t t' : T}
    (h : l.decode a (mem t (l.index a)) = .table t') :
    walk mem a (l :: ls) t = walk mem a ls t' := by
  simp [walk, h]

def Level.map (g : A → P → Q) (l : Level A T I E P) : Level A T I E Q where
  index := l.index
  decode a e := (l.decode a e).map (g a)

theorem walk_map (g : A → P → Q) (ls : List (Level A T I E P)) (t : T) :
    walk mem a (ls.map (Level.map g)) t = (walk mem a ls t).map (g a) := by
  induction ls generalizing t with
  | nil => rfl
  | cons l ls ih =>
      have hdecode : (l.map g).decode a (mem t ((l.map g).index a)) =
          (l.decode a (mem t (l.index a))).map (g a) := rfl
      rw [List.map_cons]
      cases hentry : l.decode a (mem t (l.index a)) with
      | empty =>
          rw [walk_of_empty (by rw [hdecode, hentry]; rfl), walk_of_empty hentry]
          rfl
      | page p =>
          have hpage : (l.map g).decode a (mem t ((l.map g).index a)) = .page (g a p) := by
            rw [hdecode, hentry]
            rfl
          rw [walk_of_page hpage, walk_of_page hentry]
          rfl
      | table t' =>
          have htable : (l.map g).decode a (mem t ((l.map g).index a)) = .table t' := by
            rw [hdecode, hentry]
            rfl
          rw [walk_of_table htable, walk_of_table hentry]
          exact ih t'

theorem exists_page_of_walk {ls : List (Level A T I E P)} {t : T} {p : P}
    (h : walk mem a ls t = some p) : ∃ l ∈ ls, ∃ e, l.decode a e = .page p := by
  induction ls generalizing t with
  | nil => simp [walk] at h
  | cons l ls ih =>
      cases hentry : l.decode a (mem t (l.index a)) with
      | empty =>
          rw [walk_of_empty hentry] at h
          simp at h
      | page p' =>
          rw [walk_of_page hentry] at h
          obtain rfl := Option.some.inj h
          exact ⟨l, by simp, _, hentry⟩
      | table t' =>
          rw [walk_of_table hentry] at h
          obtain ⟨l', hl', he⟩ := ih h
          exact ⟨l', by simp [hl'], he⟩

theorem walk_congr {a' : A} {ls : List (Level A T I E P)}
    (h : ∀ l ∈ ls, l.index a = l.index a' ∧ l.decode a = l.decode a') (t : T) :
    walk mem a ls t = walk mem a' ls t := by
  induction ls generalizing t with
  | nil => rfl
  | cons l ls ih =>
      obtain ⟨hindex, hdecode⟩ := h l (by simp)
      have hrest : ∀ t, walk mem a ls t = walk mem a' ls t := ih fun l hl ↦ h l (by simp [hl])
      simp only [walk, hindex, hdecode, hrest]

/-! ## Two ways to decode -/

/-- The walk from an entry on, with the levels that are left. -/
def resume (mem : T → I → E) (a : A) (ls : List (Level A T I E P)) : Entry T P → Option P
  | .empty => none
  | .page p => some p
  | .table t => walk mem a ls t

theorem walk_eq_resume {l : Level A T I E P} {ls : List (Level A T I E P)} {t : T} :
    walk mem a (l :: ls) t = resume mem a ls (l.decode a (mem t (l.index a))) := by
  cases h : l.decode a (mem t (l.index a)) with
  | empty => exact walk_of_empty h
  | page p => exact walk_of_page h
  | table t' => exact walk_of_table h

/-- The levels `ms` descend where `ls` does. From an entry that ends the walk of `ls` with
`p` they go on to the result `f p`. -/
inductive Resolves (mem : T → I → E) (a : A) (f : P → Option Q) :
    List (Level A T I E P) → List (Level A T I E Q) → Prop where
  | nil : Resolves mem a f [] []
  | cons {l : Level A T I E P} {m : Level A T I E Q} {ls : List (Level A T I E P)}
      {ms : List (Level A T I E Q)} (hindex : l.index a = m.index a)
      (hempty : ∀ e, l.decode a e = .empty → m.decode a e = .empty)
      (htable : ∀ e t, l.decode a e = .table t → m.decode a e = .table t)
      (hpage : ∀ e p, l.decode a e = .page p → resume mem a ms (m.decode a e) = f p)
      (hrest : Resolves mem a f ls ms) : Resolves mem a f (l :: ls) (m :: ms)

theorem walk_of_resolves {f : P → Option Q} {ls : List (Level A T I E P)}
    {ms : List (Level A T I E Q)} (h : Resolves mem a f ls ms) (t : T) :
    walk mem a ms t = (walk mem a ls t).bind f := by
  induction h generalizing t with
  | nil => rfl
  | @cons l m ls ms hindex hempty htable hpage _ ih =>
      rw [walk_eq_resume, ← hindex]
      cases hentry : l.decode a (mem t (l.index a)) with
      | empty =>
          rw [walk_of_empty hentry, hempty _ hentry]
          rfl
      | page p =>
          rw [walk_of_page hentry, hpage _ p hentry]
          rfl
      | table t' =>
          rw [walk_of_table hentry, htable _ t' hentry]
          exact ih t'

/-! ## Properties of all entries -/

/-- Every entry of the tables below `t` satisfies the predicate of its level, where
`child` says which table an entry leads to. -/
def AllEntries (mem : T → I → E) : List ((E → Prop) × (E → Option T)) → T → Prop
  | [], _ => True
  | (ok, child) :: rest, t =>
      ∀ i, ok (mem t i) ∧ ∀ t', child (mem t i) = some t' → AllEntries mem rest t'

/-- Two ways to decode that agree on the entries the predicates allow. -/
inductive Agrees (a : A) : List (Level A T I E P) → List (Level A T I E P) →
    List ((E → Prop) × (E → Option T)) → Prop where
  | nil : Agrees a [] [] []
  | cons {l m : Level A T I E P} {ls ms : List (Level A T I E P)} {ok : E → Prop}
      {child : E → Option T} {rest : List ((E → Prop) × (E → Option T))}
      (hindex : l.index a = m.index a)
      (hdecode : ∀ e, ok e → l.decode a e = m.decode a e)
      (hchild : ∀ e t, ok e → l.decode a e = .table t → child e = some t)
      (hrest : Agrees a ls ms rest) : Agrees a (l :: ls) (m :: ms) ((ok, child) :: rest)

theorem walk_eq_of_agrees {ls ms : List (Level A T I E P)}
    {oks : List ((E → Prop) × (E → Option T))} (h : Agrees a ls ms oks) {t : T}
    (hall : AllEntries mem oks t) : walk mem a ls t = walk mem a ms t := by
  induction h generalizing t with
  | nil => rfl
  | @cons l m ls ms ok child rest hindex hdecode hchild _ ih =>
      obtain ⟨hok, hnext⟩ := hall (l.index a)
      have hsame : m.decode a (mem t (m.index a)) = l.decode a (mem t (l.index a)) := by
        rw [← hindex, hdecode _ hok]
      cases hentry : l.decode a (mem t (l.index a)) with
      | empty =>
          rw [walk_of_empty hentry, walk_of_empty (hsame.trans hentry)]
      | page p =>
          rw [walk_of_page hentry, walk_of_page (hsame.trans hentry)]
      | table t' =>
          rw [walk_of_table hentry, walk_of_table (hsame.trans hentry)]
          exact ih (hnext t' (hchild _ t' hok hentry))

/-! ## Two memories -/

/-- The memories hold the same entries in `t` and in every table below it. -/
def SameBelow (mem mem' : T → I → E) : List (E → Option T) → T → Prop
  | [], _ => True
  | child :: rest, t =>
      ∀ i, mem t i = mem' t i ∧ ∀ t', child (mem t i) = some t' → SameBelow mem mem' rest t'

theorem walk_eq_of_sameBelow {ls : List (Level A T I E P)} {children : List (E → Option T)}
    (hchild : List.Forall₂
      (fun l child ↦ ∀ e t, l.decode a e = .table t → child e = some t) ls children)
    {t : T} (hsame : SameBelow mem mem' children t) : walk mem a ls t = walk mem' a ls t := by
  induction hchild generalizing t with
  | nil => rfl
  | @cons l child ls children hl _ ih =>
      obtain ⟨hentry, hnext⟩ := hsame (l.index a)
      cases hdecode : l.decode a (mem t (l.index a)) with
      | empty =>
          have hdecode' : l.decode a (mem' t (l.index a)) = .empty := hentry ▸ hdecode
          rw [walk_of_empty hdecode, walk_of_empty hdecode']
      | page p =>
          have hdecode' : l.decode a (mem' t (l.index a)) = .page p := hentry ▸ hdecode
          rw [walk_of_page hdecode, walk_of_page hdecode']
      | table t' =>
          have hdecode' : l.decode a (mem' t (l.index a)) = .table t' := hentry ▸ hdecode
          rw [walk_of_table hdecode, walk_of_table hdecode']
          exact ih (hnext t' (hl _ t' hdecode))

end NcuKernel.Radix
