import Mathlib.Data.List.Basic
import ServiceLib.Tracing.Propagation

namespace ServiceLib.Case

/-!
# Case — one branch gets the message

`CaseImpl::consume` of `operators/case.inl` starts a span, asks a selector for the index of a
branch, and `dispatchBranch` finds that branch by halving the range of indices.  A selector takes
its index from `whenIndex`, which looks a branch up by name (`case_routes`).  A message
context is its trace part and the rest.
-/

open List Tracing

/-- The branch that is called, of those from `first` on and before `last`. -/
def dispatchBranch (index first last : Nat) : Nat :=
  if last - first ≤ 1 then first
  else
    let middle := first + (last - first) / 2
    if index < middle then dispatchBranch index first middle
    else dispatchBranch index middle last
termination_by last - first

variable {C P : Type}

/-- `StartStreamSpan`, which replaces the trace of a sampled message of a traced stream. -/
def startStreamSpan (tracer : Option Userver) (ctx : TraceContext × C) : TraceContext × C :=
  (startSpanInPlace tracer ctx.1, ctx.2)

/-- `consume`: the branch that is called and what it is given.  `f` returns a `size_t`. -/
def consume (tracer : Option Userver) (size : Nat)
    (f : TraceContext × C → P → Except String Nat) (ctx : TraceContext × C) (payload : P) :
    Except String (Nat × (TraceContext × C) × P) := do
  let ctx := startStreamSpan tracer ctx
  let idx ← f ctx payload
  if idx ≥ size then throw "Case selected a branch index outside its configured branches"
  return (dispatchBranch idx 0 size, ctx, payload)

end ServiceLib.Case
