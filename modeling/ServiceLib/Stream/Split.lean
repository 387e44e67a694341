import Mathlib.Data.List.Perm.Basic

namespace ServiceLib.Split

/-!
# Split — every branch gets the message once

`SplitBase::dispatchBranches` of `operators/split.inl` goes over its branches twice, first for the
asynchronous callers and then for the others, and counts down the calls that are left.  The last
call takes the message itself, every other one a copy.

* A message that was moved from is `none`; the contents of a context and of a payload are opaque.
-/

open List Option Function

variable {C P : Type}

/-! ### The loop -/

/-- A call of `caller.consume`, with what its arguments held. -/
structure Invocation (C P : Type) where
  branch : Nat
  context : Option C
  payload : Option P
  deriving DecidableEq, Repr

/-- The locals of `dispatchBranches`, and the calls made so far. -/
structure Locals (C P : Type) where
  remaining : Int
  context : Option C
  payload : Option P
  invocations : List (Invocation C P)
  deriving DecidableEq, Repr

/-- The body of the loop for a branch, given by its `asyncBranches_` and its index. -/
def dispatchBranch (async : Bool) (l : Locals C P) (branch : Bool × Nat) : Locals C P :=
  if branch.1 ≠ async then l
  else
    let invocations := l.invocations ++ [⟨branch.2, l.context, l.payload⟩]
    if l.remaining - 1 = 0 then ⟨l.remaining - 1, none, none, invocations⟩
    else { l with remaining := l.remaining - 1, invocations }

def dispatchBranches (asyncBranches : List Bool) (context : C) (payload : P) : Locals C P :=
  [true, false].foldl (fun l async => asyncBranches.zipIdx.foldl (dispatchBranch async) l)
    ⟨asyncBranches.length, some context, some payload, []⟩

/-! ### The countdown -/

/-- `k` calls are left, and the message is still there for them. -/
structure Locals.Left (l : Locals C P) (context : C) (payload : P) (k : Nat) : Prop where
  remaining : l.remaining = k
  message : 0 < k → l.context = some context ∧ l.payload = some payload

variable {context : C} {payload : P} {l : Locals C P} {k : Nat} {branch : Bool × Nat} {async : Bool}

/-- A branch of the other kind is left out. -/
theorem dispatchBranch_skips (h : branch.1 ≠ async) :
    dispatchBranch async l branch = l := if_pos h

/-- **One call.**  It sees the message, and takes it away only when it is the last one. -/
theorem dispatchBranch_invokes (hb : branch.1 = async)
    (h : l.Left context payload (k + 1)) :
    (dispatchBranch async l branch).Left context payload k ∧
      (dispatchBranch async l branch).invocations =
        l.invocations ++ [⟨branch.2, some context, some payload⟩] := by
  obtain ⟨hcontext, hpayload⟩ := h.message (Nat.succ_pos k)
  have hk : l.remaining - 1 = k := by
    have := h.remaining
    omega
  unfold dispatchBranch
  rw [if_neg (not_not.mpr hb), hcontext, hpayload]
  dsimp only
  split
  next hzero =>
    refine ⟨⟨hk, fun hpos => ?_⟩, rfl⟩
    omega
  next => exact ⟨⟨hk, fun _ => ⟨rfl, rfl⟩⟩, rfl⟩

/-- **One pass.**  The branches of its kind are called in their order, when the countdown has `k`
    calls to go after them. -/
theorem dispatchPass_invokes (async : Bool) (branches : List (Bool × Nat))
    (h : l.Left context payload ((branches.filter (·.1 = async)).length + k)) :
    (branches.foldl (dispatchBranch async) l).Left context payload k ∧
      (branches.foldl (dispatchBranch async) l).invocations = l.invocations ++
        (branches.filter (·.1 = async)).map (⟨·.2, some context, some payload⟩) := by
  induction branches generalizing l with
  | nil => simpa using h
  | cons branch rest ih =>
    rw [foldl_cons]
    by_cases hb : branch.1 = async
    · rw [filter_cons_of_pos (by simpa using hb)] at h ⊢
      rw [length_cons, Nat.add_right_comm] at h
      obtain ⟨hleft, hinvoked⟩ := dispatchBranch_invokes hb h
      obtain ⟨hrest, hinvocations⟩ := ih hleft
      refine ⟨hrest, ?_⟩
      rw [hinvocations, hinvoked, append_assoc]
      rfl
    · rw [filter_cons_of_neg (by simpa using hb)] at h ⊢
      rw [dispatchBranch_skips hb]
      exact ih h

/-! ### Both passes -/

/-- The two kinds of branches are all of them. -/
theorem filter_append_filter_perm (branches : List (Bool × Nat)) :
    Perm (branches.filter (·.1 = true) ++ branches.filter (·.1 = false)) branches := by
  have h := filter_append_perm (fun b : Bool × Nat => decide (b.1 = true)) branches
  simpa using h

/-- The calls of `dispatchBranches`: the asynchronous branches, then the others. -/
theorem dispatchBranches_invocations (asyncBranches : List Bool) (context : C) (payload : P) :
    (dispatchBranches asyncBranches context payload).invocations =
      (asyncBranches.zipIdx.filter (·.1 = true) ++ asyncBranches.zipIdx.filter (·.1 = false)).map
        (⟨·.2, some context, some payload⟩) := by
  have hlength := (filter_append_filter_perm asyncBranches.zipIdx).length_eq
  rw [length_append, length_zipIdx] at hlength
  have hinit : Locals.Left ⟨asyncBranches.length, some context, some payload, []⟩ context payload
      ((asyncBranches.zipIdx.filter (·.1 = true)).length +
        ((asyncBranches.zipIdx.filter (·.1 = false)).length + 0)) :=
    ⟨by dsimp only; omega, fun _ => ⟨rfl, rfl⟩⟩
  obtain ⟨hasync, hfirst⟩ := dispatchPass_invokes true _ hinit
  obtain ⟨-, hsecond⟩ := dispatchPass_invokes false _ hasync
  rw [map_append]
  exact hsecond.trans (by rw [hfirst, nil_append])

/-- The indices of the branches of one kind, in order. -/
theorem zipIdx_filter_map_snd (asyncBranches : List Bool) (async : Bool) :
    (asyncBranches.zipIdx.filter (·.1 = async)).map Prod.snd =
      (range asyncBranches.length).filter (fun i => asyncBranches[i]? = some async) := by
  have hrange : asyncBranches.zipIdx.map Prod.snd = range asyncBranches.length := by
    rw [zipIdx_map_snd, range_eq_range']
  rw [← hrange, List.filter_map]
  congr 1
  refine filter_congr fun branch hmem => ?_
  have hi := mem_zipIdx_iff_getElem?.mp hmem
  simp only [comp_apply, hi, some.injEq]

/-- **Split dispatch.**  The asynchronous branches come first, each kind in the order of the
    branches; every branch is called exactly once, and every call has the message that came in. -/
theorem split_dispatch (asyncBranches : List Bool) (context : C) (payload : P) :
    List.Perm ((dispatchBranches asyncBranches context payload).invocations.map
        Invocation.branch) (range asyncBranches.length) ∧
      (dispatchBranches asyncBranches context payload).invocations.map Invocation.branch =
        (range asyncBranches.length).filter (fun i => asyncBranches[i]? = some true) ++
          (range asyncBranches.length).filter (fun i => asyncBranches[i]? = some false) ∧
      ∀ x ∈ (dispatchBranches asyncBranches context payload).invocations,
        x.context = some context ∧ x.payload = some payload := by
  have hinvocations := dispatchBranches_invocations asyncBranches context payload
  have hbranches : (dispatchBranches asyncBranches context payload).invocations.map
      Invocation.branch = (asyncBranches.zipIdx.filter (·.1 = true) ++
        asyncBranches.zipIdx.filter (·.1 = false)).map Prod.snd := by
    rw [hinvocations, List.map_map]
    rfl
  refine ⟨?_, ?_, fun x hx => ?_⟩
  · rw [hbranches, range_eq_range', ← zipIdx_map_snd 0 asyncBranches]
    exact (filter_append_filter_perm asyncBranches.zipIdx).map Prod.snd
  · rw [hbranches, map_append, zipIdx_filter_map_snd, zipIdx_filter_map_snd]
  · rw [hinvocations] at hx
    obtain ⟨branch, -, rfl⟩ := mem_map.mp hx
    exact ⟨rfl, rfl⟩

end ServiceLib.Split
