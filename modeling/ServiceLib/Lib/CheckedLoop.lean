import Mathlib.Data.List.Induction

namespace ServiceLib

/-!
# Loops that stop at the first exception
-/

variable {ε α β : Type} {b : β}

/-- A sequence succeeds when both parts do. -/
theorem bind_eq_ok {x : Except ε α} {f : α → Except ε β} :
    (x >>= f) = .ok b ↔ ∃ a, x = .ok a ∧ f a = .ok b := by
  cases x <;> simp [Bind.bind, Except.bind]

/-- **Loop rule.**  `s seen` is what the rounds for `seen` leave, and `P` says which lists are
    admissible. -/
theorem foldlM_eq_ok {round : β → α → Except ε β} {s : List α → β} {P : List α → Prop}
    (hnil : P []) (hinit : ∀ seen x, P (seen ++ [x]) → P seen)
    (hround : ∀ seen x b, P seen →
      (round (s seen) x = .ok b ↔ P (seen ++ [x]) ∧ b = s (seen ++ [x]))) {xs : List α} :
    xs.foldlM round (s []) = .ok b ↔ P xs ∧ b = s xs := by
  induction xs using List.reverseRecOn generalizing b with
  | nil => simp [hnil, pure, Except.pure, eq_comm]
  | append_singleton xs x ih =>
    rw [List.foldlM_append, bind_eq_ok]
    simp only [ih, List.foldlM_cons, List.foldlM_nil, bind_pure]
    constructor
    · rintro ⟨_, ⟨hok, rfl⟩, hlast⟩
      exact (hround xs x b hok).mp hlast
    · rintro ⟨hok, hb⟩
      have hxs := hinit xs x hok
      exact ⟨_, ⟨hxs, rfl⟩, (hround xs x b hxs).mpr ⟨hok, hb⟩⟩

end ServiceLib
