import Mathlib.Data.List.Basic

namespace ServiceLib

/-!
# Computations that log what they do

A decoder fails or returns a value, and in both cases leaves a log of what it did on the way.
Statements about a decoder are made under an assumption on its log: `Returns P d a` says that
`d` returns `a` provided every entry of its log satisfies `P`.
-/

universe u

variable {ω ε α β σ : Type}

/-- The log of a computation and how it ended. -/
structure Decoded (ω ε : Type) (α : Type u) where
  log : List ω
  outcome : Except ε α

namespace Decoded

/-- Sequencing: what comes after a failure is not run. -/
def bind (d : Decoded ω ε α) (f : α → Decoded ω ε β) : Decoded ω ε β :=
  match d.outcome with
  | .ok a => ⟨d.log ++ (f a).log, (f a).outcome⟩
  | .error e => ⟨d.log, .error e⟩

instance : Monad (Decoded ω ε) where
  pure a := ⟨[], .ok a⟩
  bind := bind

/-- Fail with `e`. -/
def fail (e : ε) : Decoded ω ε α := ⟨[], .error e⟩

/-- Log `w`. -/
def tell (w : ω) : Decoded ω ε Unit := ⟨[w], .ok ()⟩

variable {d : Decoded ω ε α} {w : ω}

/-- What a computation logged stays logged, whatever comes after it. -/
theorem mem_log_bind (h : w ∈ d.log) (f : α → Decoded ω ε β) : w ∈ (d >>= f).log := by
  show w ∈ (d.bind f).log
  unfold Decoded.bind
  split
  · exact List.mem_append_left _ h
  · exact h

/-- `d` returns `a`, provided every entry of its log satisfies `P`. -/
def Returns (P : ω → Prop) (d : Decoded ω ε α) (a : α) : Prop :=
  (∀ w ∈ d.log, P w) → d.outcome = .ok a

variable {P : ω → Prop} {b : β}

theorem Returns.pure (a : α) : Returns P (Pure.pure a : Decoded ω ε α) a := fun _ => rfl

/-- **Composition rule.** -/
theorem Returns.bind {f : α → Decoded ω ε β} {a : α} (hd : Returns P d a)
    (hf : Returns P (f a) b) : Returns P (d >>= f) b := by
  intro hlog
  have hd' : d.outcome = .ok a := hd (fun w hw => hlog w (mem_log_bind hw f))
  show (d.bind f).outcome = .ok b
  replace hlog : ∀ w ∈ (d.bind f).log, P w := hlog
  unfold Decoded.bind at hlog ⊢
  rw [hd'] at hlog ⊢
  exact hf (fun w hw => hlog w (List.mem_append_right _ hw))

/-- Logging `w` makes `P w` available to what follows. -/
theorem Returns.tell {f : Unit → Decoded ω ε β} (h : P w → Returns P (f ()) b) :
    Returns P (Decoded.tell w >>= f) b := by
  intro hlog
  have hw : P w := hlog w List.mem_cons_self
  exact h hw (fun v hv => hlog v (List.mem_cons_of_mem _ hv))

/-- Run `read` `n` times, threading the state and collecting the results. -/
def readMany (read : σ → Decoded ω ε (α × σ)) : Nat → σ → Decoded ω ε (List α × σ)
  | 0, s => Pure.pure ([], s)
  | n + 1, s => do
    let (a, s) ← read s
    let (as, s) ← readMany read n s
    return (a :: as, s)

end Decoded

end ServiceLib
