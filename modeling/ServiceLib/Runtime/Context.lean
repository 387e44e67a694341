import Mathlib.Data.List.Basic

namespace ServiceLib

/-!
# Contexts, stop tokens and the clock

The cancellation facet of `Context` (`runtime/context.hpp`): a primary stop token, any
number of external stop tokens attached by transport adapters, and an optional deadline.
The world a context is evaluated in (`World`) is the steady clock and the set of stop
sources that have been triggered; both only grow.
-/

/-- A `steady_clock` time point. -/
abbrev Time := Int

/-- A stop source; tokens with the same id share the stop state. -/
abbrev TokenId := Nat

/-- `steady_clock::time_point::min()`. -/
def timeMin : Time := -9223372036854775808

/-- `steady_clock::time_point::max()`. -/
def timeMax : Time := 9223372036854775807

/-- `saturatedAdd`, which the delay pool and the join storage each have. -/
def saturatedAdd (now duration : Time) : Time :=
  if duration ≤ 0 then now
  else if duration ≥ timeMax - now then timeMax
  else now + duration

/-- What time and the owners of stop sources have done so far. -/
structure World where
  now : Time
  fired : List TokenId
  deriving DecidableEq, Repr

/-- `stop_token::stop_requested`. -/
def World.stopRequested (w : World) (τ : TokenId) : Bool := w.fired.contains τ

/-- `ContextStateBase`.  A `stopToken` of `none` is a default-constructed token, for which
    `stop_possible()` is false. -/
structure Context where
  stopToken : Option TokenId := none
  deadline : Option Time := none
  externalStopTokens : List TokenId := []
  deriving DecidableEq, Repr

namespace Context

/-- `Context::externallyCancelled`. -/
def externallyCancelled (c : Context) (w : World) : Bool :=
  c.externalStopTokens.any w.stopRequested

/-- Whether the context's deadline has passed. -/
def expired (c : Context) (w : World) : Bool :=
  c.deadline.any (fun d => decide (d ≤ w.now))

/-- `Context::cancelled`. -/
def cancelled (c : Context) (w : World) : Bool :=
  c.stopToken.any w.stopRequested || c.externallyCancelled w || c.expired w

/-- Every stop token that makes the context cancelled, primary first. -/
def tokens (c : Context) : List TokenId := c.stopToken.toList ++ c.externalStopTokens

/-- A context is cancelled exactly when one of its tokens fired or its deadline passed. -/
theorem cancelled_iff (c : Context) (w : World) :
    c.cancelled w ↔
      (∃ τ ∈ c.tokens, w.stopRequested τ) ∨ ∃ d, c.deadline = some d ∧ d ≤ w.now := by
  cases hs : c.stopToken <;> cases hd : c.deadline <;>
    simp [cancelled, externallyCancelled, expired, tokens, hs, hd, or_assoc]

/-- A cancelled context stays cancelled. -/
theorem cancelled_mono (c : Context) {w w' : World} (hnow : w.now ≤ w'.now)
    (hfired : ∀ τ, w.stopRequested τ → w'.stopRequested τ)
    (h : c.cancelled w) : c.cancelled w' := by
  rw [cancelled_iff] at h ⊢
  rcases h with ⟨τ, hτ, hreq⟩ | ⟨d, hd, hle⟩
  · exact .inl ⟨τ, hτ, hfired τ hreq⟩
  · exact .inr ⟨d, hd, Int.le_trans hle hnow⟩

end Context

end ServiceLib
