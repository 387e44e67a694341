import Mathlib.Data.List.Basic

namespace ServiceLib

/-!
# Labelled transition systems with executable steps

A concurrent component is modelled as a `System`: an initial state and a partial step
function.  All nondeterminism (which thread moves, what the clock reads, whether an
allocation fails) sits in the action, so a schedule is a list of actions and a concrete
schedule can be evaluated.
-/

universe u v

/-- A transition system: an initial state and a step function that is undefined on
    actions which are not enabled. -/
structure System (σ : Type u) (α : Type v) where
  init : σ
  step : σ → α → Option σ

namespace System

variable {σ : Type u} {α : Type v}

/-- Execute the actions `as` from state `s`. -/
def runFrom (S : System σ α) : σ → List α → Option σ
  | s, [] => some s
  | s, a :: as => (S.step s a).bind (fun s' => S.runFrom s' as)

/-- Execute a schedule from the initial state. -/
def run (S : System σ α) (as : List α) : Option σ := S.runFrom S.init as

/-- The states reached by runs all of whose steps satisfy `ok`. -/
inductive ReachableIf (S : System σ α) (ok : σ → α → Prop) : σ → Prop
  | init : ReachableIf S ok S.init
  | step {s s' : σ} {a : α} : ReachableIf S ok s → ok s a → S.step s a = some s' →
      ReachableIf S ok s'

/-- The states reached by any run. -/
def Reachable (S : System σ α) : σ → Prop := S.ReachableIf (fun _ _ => True)

/-- `Steps S ok s t`: some run from `s` whose steps all satisfy `ok` ends in `t`. -/
inductive Steps (S : System σ α) (ok : σ → α → Prop) (s : σ) : σ → Prop
  | refl : Steps S ok s s
  | step {t t' : σ} {a : α} : Steps S ok s t → ok t a → S.step t a = some t' →
      Steps S ok s t'

variable {S : System σ α} {ok : σ → α → Prop} {s t : σ} {as : List α} {I : σ → Prop}

/-- **Invariant rule.**  A predicate that holds initially and that every permitted step
    from a reachable state preserves holds in every reachable state. -/
theorem ReachableIf.invariant (h0 : I S.init)
    (hstep : ∀ {s a s'}, S.ReachableIf ok s → I s → ok s a → S.step s a = some s' → I s')
    (h : S.ReachableIf ok s) : I s := by
  induction h with
  | init => exact h0
  | step hr hok hs ih => exact hstep hr ih hok hs

/-- Restricting the steps of a run only removes states. -/
theorem ReachableIf.mono {ok' : σ → α → Prop} (himp : ∀ s a, ok s a → ok' s a)
    (h : S.ReachableIf ok s) : S.ReachableIf ok' s := by
  induction h with
  | init => exact .init
  | step _ hok hs ih => exact .step ih (himp _ _ hok) hs

theorem ReachableIf.reachable (h : S.ReachableIf ok s) : S.Reachable s :=
  h.mono (fun _ _ _ => trivial)

/-- A predicate preserved by every permitted step is carried along a run. -/
theorem Steps.preserves
    (hstep : ∀ {s a s'}, I s → ok s a → S.step s a = some s' → I s') (h : S.Steps ok s t)
    (hs : I s) : I t := by
  induction h with
  | refl => exact hs
  | step _ hok hstp ih => exact hstep ih hok hstp

/-- A run from a reachable state stays reachable. -/
theorem Steps.reachableIf (h : S.Steps ok s t) (hs : S.ReachableIf ok s) : S.ReachableIf ok t := by
  induction h with
  | refl => exact hs
  | step _ hok hstp ih => exact .step ih hok hstp

theorem Steps.trans {u : σ} (h₁ : S.Steps ok s t) (h₂ : S.Steps ok t u) : S.Steps ok s u := by
  induction h₂ with
  | refl => exact h₁
  | step _ hok hs ih => exact .step ih hok hs

/-! ### Histories -/

/-- `S` with a history that every step extends and that no step depends on. -/
def withHistory {η : Type*} (S : System σ α) (start : η) (record : σ → α → η → η) :
    System (σ × η) α where
  init := (S.init, start)
  step p a := (S.step p.1 a).map (fun s' => (s', record p.1 a p.2))

/-- Without its history, a run is a run. -/
theorem ReachableIf.of_history {η : Type*} {start : η} {record : σ → α → η → η} {p : σ × η}
    (h : (S.withHistory start record).ReachableIf (fun p a => ok p.1 a) p) :
    S.ReachableIf ok p.1 := by
  induction h with
  | init => exact .init
  | step _ hok hs ih =>
    obtain ⟨s', hs', rfl⟩ := Option.map_eq_some_iff.mp hs
    exact .step ih hok hs'

/-! ### Executing schedules -/

/-- The part of `S` whose steps pass the decidable test `ok`; executing a schedule in it
    checks the test at every step. -/
def guarded (S : System σ α) (ok : σ → α → Prop) [∀ s a, Decidable (ok s a)] :
    System σ α where
  init := S.init
  step s a := if ok s a then S.step s a else none

theorem runFrom_append (s : σ) (as bs : List α) :
    S.runFrom s (as ++ bs) = (S.runFrom s as).bind (fun t => S.runFrom t bs) := by
  induction as generalizing s with
  | nil => rfl
  | cons a as ih =>
    change (S.step s a).bind _ = ((S.step s a).bind _).bind _
    rw [Option.bind_assoc]
    exact congrArg _ (funext ih)

theorem runFrom_steps (h : S.runFrom s as = some t) : S.Steps (fun _ _ => True) s t := by
  induction as generalizing s with
  | nil =>
    obtain rfl : s = t := by simpa [runFrom] using h
    exact .refl
  | cons a as ih =>
    obtain ⟨s', hs', hrest⟩ := Option.bind_eq_some_iff.mp h
    exact Steps.trans (.step .refl trivial hs') (ih hrest)

/-- A guarded run gives a path along which the condition holds. -/
theorem steps_of_guarded_runFrom [∀ s a, Decidable (ok s a)]
    (h : (S.guarded ok).runFrom s as = some t) : S.Steps ok s t := by
  have hr := runFrom_steps h
  clear h
  induction hr with
  | refl => exact .refl
  | @step u u' a _ _ hs ih =>
    by_cases hok : ok u a
    · have hs' : S.step u a = some u' := by simpa [guarded, hok] using hs
      exact .step ih hok hs'
    · simp [guarded, hok] at hs

/-- A schedule whose last state satisfies `p` shows that `p` is reachable. -/
theorem exists_reachable_of_run (S : System σ α) (as : List α) (p : σ → Prop) [DecidablePred p]
    (h : (S.run as).any (p ·)) : ∃ s, S.Reachable s ∧ p s := by
  obtain ⟨s, hrun, hp⟩ := (Option.any_eq_true _ _).mp h
  exact ⟨s, (runFrom_steps hrun).reachableIf .init, of_decide_eq_true hp⟩

section

variable (S : System σ α) (ok : σ → α → Prop) [∀ s a, Decidable (ok s a)] (as : List α)
  (p : σ → Prop) [DecidablePred p]

/-- A schedule that executes from `s` by permitted steps and ends in a state that satisfies
    `p`. -/
theorem exists_steps_of_run (s : σ) (h : ((S.guarded ok).runFrom s as).any (p ·)) :
    ∃ t, S.Steps ok s t ∧ p t := by
  obtain ⟨t, hrun, hp⟩ := (Option.any_eq_true _ _).mp h
  exact ⟨t, steps_of_guarded_runFrom hrun, of_decide_eq_true hp⟩

/-- The same from the initial state. -/
theorem exists_reachableIf_of_run (h : ((S.guarded ok).run as).any (p ·)) :
    ∃ s, S.ReachableIf ok s ∧ p s := by
  obtain ⟨s, hsteps, hp⟩ := exists_steps_of_run S ok as p S.init h
  exact ⟨s, hsteps.reachableIf .init, hp⟩

end

end System

end ServiceLib
