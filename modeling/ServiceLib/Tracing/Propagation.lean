import Mathlib.Data.List.Basic

namespace ServiceLib.Tracing

/-!
# Trace propagation

What happens to the trace part of a `MessageContext` on its way through the graph.  A span
that is started for a sampled message replaces the context's trace by its own, which comes
from userver and knows no baggage.  `trace_propagation_iff` says on which paths baggage and
trace state survive.

Attributes, events and the lifetime of spans do not influence the context and are left out.
-/

open List

/-- `SpanContext`. -/
structure SpanContext where
  traceId : String := ""
  spanId : String := ""
  valid : Bool := false
  traceState : String := ""
  baggage : String := ""
  deriving DecidableEq, Repr

/-- The part of a `MessageContext` that tracing reads and writes. -/
structure TraceContext where
  samplingEnabled : Bool
  trace : SpanContext
  deriving DecidableEq, Repr

/-- `MessageContext::withTrace`. -/
def TraceContext.withTrace (c : TraceContext) (tc : SpanContext) : TraceContext :=
  { c with trace := tc }

/-! ### The userver adapter -/

/-- What userver contributes when a span is started: the ambient span with its sampling flag,
    the inherited trace state, and the identifiers it generates. -/
structure Userver where
  current : Option (String × String × Bool) := none
  inheritedOtelTraceState : String := ""
  freshTraceId : String
  freshSpanId : String
  deriving DecidableEq, Repr

/-- `UserverSpan`, before it is ended. -/
structure UserverSpan where
  traceId : String
  spanId : String
  traceState : String
  deriving DecidableEq, Repr

/-- `UserverSpan::spanContext`. -/
def UserverSpan.spanContext (s : UserverSpan) : SpanContext :=
  ⟨s.traceId, s.spanId, true, s.traceState, ""⟩

namespace Userver

/-- The ambient trace id, or a new one. -/
def rootTraceId (u : Userver) : String := (u.current.map (·.1)).getD u.freshTraceId

/-- `Span::MakeSpan`: a new trace unless a trace id is given. -/
def makeSpan (u : Userver) (traceId traceState : String) : UserverSpan :=
  ⟨if traceId = "" then u.freshTraceId else traceId, u.freshSpanId, traceState⟩

/-- `UserverTracer::start`. -/
def start (u : Userver) : UserverSpan :=
  ⟨u.rootTraceId, u.freshSpanId, u.inheritedOtelTraceState⟩

/-- `UserverTracer::currentSpanContext`. -/
def currentSpanContext (u : Userver) : SpanContext :=
  match u.current with
  | none => {}
  | some (traceId, spanId, sampled) => ⟨traceId, spanId, sampled, u.inheritedOtelTraceState, ""⟩

/-- `UserverTracer::startChildOf`. -/
def startChildOf (u : Userver) (parent : SpanContext) : UserverSpan :=
  if !parent.valid then u.start else u.makeSpan parent.traceId parent.traceState

/-- `UserverTracer::startDetachedChildOf`. -/
def startDetachedChildOf (u : Userver) (parent : SpanContext) : UserverSpan :=
  u.makeSpan (if parent.valid then parent.traceId else "") parent.traceState

end Userver

/-! ### Starting spans -/

/-- `StartSpanInPlace`; a tracer of `none` is a null pointer. -/
def startSpanInPlace (tracer : Option Userver) (c : TraceContext) : TraceContext :=
  match tracer with
  | none => c
  | some u =>
    if !c.samplingEnabled then c
    else
      let span := if c.trace.valid then u.startChildOf c.trace else u.start
      let child := span.spanContext
      c.withTrace { child with
        traceState := if child.traceState = "" then c.trace.traceState else child.traceState
        baggage := if child.baggage = "" then c.trace.baggage else child.baggage }

/-- The start of a detached span, as the delay operator and the gRPC sinks write it. -/
def startDetached (tracer : Option Userver) (c : TraceContext) : TraceContext :=
  match tracer with
  | none => c
  | some u =>
    if !c.samplingEnabled then c
    else
      let parent := if c.trace.valid then c.trace else u.currentSpanContext
      c.withTrace (u.startDetachedChildOf parent).spanContext

/-- The context `Delay::consume` hands on. -/
def delayConsume (tracer : Option Userver) (c : TraceContext) : TraceContext :=
  startDetached tracer c

/-- `startDetachedTrace` of the gRPC sinks. -/
def startDetachedTrace (tracingEngineAvailable : Bool) (tracer : Option Userver)
    (c : TraceContext) : TraceContext :=
  if tracingEngineAvailable then startDetached tracer c else c

/-! ### Paths -/

/-- One hop of a message. -/
inductive Hop
  /-- A caller or an operator, with an ordinary span. -/
  | stream (tracer : Option Userver)
  | delay (tracer : Option Userver)
  | grpcSink (tracingEngineAvailable : Bool) (tracer : Option Userver)
  deriving DecidableEq, Repr

namespace Hop

/-- The context behind a hop. -/
def apply : Hop → TraceContext → TraceContext
  | stream tracer => startSpanInPlace tracer
  | delay tracer => delayConsume tracer
  | grpcSink available tracer => startDetachedTrace available tracer

/-- The tracer a hop uses. -/
def tracer : Hop → Option Userver
  | stream t | delay t | grpcSink _ t => t

/-- Whether the hop starts a detached span for context `c`. -/
def detaches (h : Hop) (c : TraceContext) : Bool :=
  match h with
  | stream _ => false
  | delay t => t.isSome && c.samplingEnabled
  | grpcSink available t => available && t.isSome && c.samplingEnabled

/-- A detached span finds no baggage, and a valid trace or no trace state. -/
def Keeps (h : Hop) (c : TraceContext) : Prop :=
  h.detaches c → c.trace.baggage = "" ∧ (c.trace.valid ∨ c.trace.traceState = "")

instance (h : Hop) (c : TraceContext) : Decidable (h.Keeps c) :=
  inferInstanceAs (Decidable (_ → _))

end Hop

/-- The contexts of a message at every point of a path, ingress first. -/
def points (c : TraceContext) : List Hop → List TraceContext
  | [] => [c]
  | h :: path => c :: points (h.apply c) path

/-- Every hop of a path keeps what the context carries when it gets there. -/
def KeepsAlong (c : TraceContext) : List Hop → Prop
  | [] => True
  | h :: path => h.Keeps c ∧ KeepsAlong (h.apply c) path

/-- What a context carries along besides its identifiers. -/
def TraceContext.carried (c : TraceContext) : String × String :=
  (c.trace.baggage, c.trace.traceState)

/-- No ambient trace state. -/
def Hop.Unstated (h : Hop) : Prop := ∀ u ∈ h.tracer, u.inheritedOtelTraceState = ""

/-! ### One hop -/

/-- An ordinary span keeps what the context carries, sampled or not and valid or not. -/
theorem carried_startSpanInPlace {tracer : Option Userver} (c : TraceContext)
    (hu : ∀ u ∈ tracer, u.inheritedOtelTraceState = "") :
    (startSpanInPlace tracer c).carried = c.carried := by
  cases tracer with
  | none => rfl
  | some u =>
    have hstate : u.inheritedOtelTraceState = "" := hu u rfl
    cases hs : c.samplingEnabled with
    | false => simp [startSpanInPlace, hs]
    | true =>
      cases hv : c.trace.valid with
      | true =>
        -- The child takes the trace state of its parent, and the baggage is restored.
        simp [startSpanInPlace, hs, hv, Userver.startChildOf, Userver.makeSpan,
          UserverSpan.spanContext, TraceContext.withTrace, TraceContext.carried]
      | false =>
        simp [startSpanInPlace, hs, hv, Userver.start, hstate, UserverSpan.spanContext,
          TraceContext.withTrace, TraceContext.carried]

/-- A detached span drops the baggage, and keeps the trace state of a valid trace only. -/
theorem carried_startDetached {u : Userver} (c : TraceContext)
    (hu : u.inheritedOtelTraceState = "") (hs : c.samplingEnabled) :
    (startDetached (some u) c).carried =
      ("", if c.trace.valid then c.trace.traceState else "") := by
  cases hv : c.trace.valid with
  | true =>
    simp [startDetached, hs, hv, Userver.startDetachedChildOf, Userver.makeSpan,
      UserverSpan.spanContext, TraceContext.withTrace, TraceContext.carried]
  | false =>
    have hcur : u.currentSpanContext.traceState = "" := by
      unfold Userver.currentSpanContext
      split
      · rfl
      · exact hu
    simp [startDetached, hs, hv, Userver.startDetachedChildOf, Userver.makeSpan, hcur,
      UserverSpan.spanContext, TraceContext.withTrace, TraceContext.carried]

variable {h : Hop}

/-- Without a detached span a hop keeps what the context carries. -/
theorem carried_apply_of_not_detaches (c : TraceContext) (hu : h.Unstated)
    (hd : h.detaches c = false) : (h.apply c).carried = c.carried := by
  cases h with
  | stream t => exact carried_startSpanInPlace c hu
  | delay t =>
    cases t with
    | none => rfl
    | some u =>
      have hs : c.samplingEnabled = false := by simpa [Hop.detaches] using hd
      simp [Hop.apply, delayConsume, startDetached, hs]
  | grpcSink available t =>
    cases available with
    | false => rfl
    | true =>
      cases t with
      | none => rfl
      | some u =>
        have hs : c.samplingEnabled = false := by simpa [Hop.detaches] using hd
        simp [Hop.apply, startDetachedTrace, startDetached, hs]

/-- With one it carries what `carried_startDetached` says. -/
theorem carried_apply_of_detaches (c : TraceContext) (hu : h.Unstated) (hd : h.detaches c) :
    (h.apply c).carried = ("", if c.trace.valid then c.trace.traceState else "") := by
  cases h with
  | stream t => cases hd
  | delay t =>
    cases t with
    | none => cases hd
    | some u => exact carried_startDetached c (hu u rfl) (by simpa [Hop.detaches] using hd)
  | grpcSink available t =>
    cases available with
    | false => cases hd
    | true =>
      cases t with
      | none => cases hd
      | some u => exact carried_startDetached c (hu u rfl) (by simpa [Hop.detaches] using hd)

/-- **One hop**: what the context carries survives it exactly when the hop keeps it. -/
theorem carried_apply_iff (c : TraceContext) (hu : h.Unstated) :
    (h.apply c).carried = c.carried ↔ h.Keeps c := by
  cases hd : h.detaches c with
  | false =>
    have hsame := carried_apply_of_not_detaches c hu hd
    constructor
    · intro _ hf
      simp [hd] at hf
    · exact fun _ => hsame
  | true =>
    rw [carried_apply_of_detaches c hu hd]
    simp only [Hop.Keeps, hd, true_implies, TraceContext.carried, Prod.mk.injEq]
    cases hv : c.trace.valid with
    | true =>
      constructor
      · exact fun h => ⟨h.1.symm, .inl rfl⟩
      · exact fun h => ⟨h.1.symm, rfl⟩
    | false =>
      constructor
      · exact fun h => ⟨h.1.symm, .inr h.2.symm⟩
      · rintro ⟨hb, hf | hts⟩
        · cases hf
        · exact ⟨hb.symm, hts.symm⟩

/-! ### Whole paths -/

/-- The ingress context is the first point of a path. -/
theorem mem_points_self (c : TraceContext) (path : List Hop) : c ∈ points c path := by
  cases path with
  | nil => exact mem_singleton.mpr rfl
  | cons h path => exact mem_cons_self

/-- **Trace propagation.**  On a path of any length, with no ambient trace state, the context
    carries the baggage and the trace state of the ingress at every point exactly when each
    detached span it starts finds no baggage, and a valid trace or no trace state. -/
theorem trace_propagation_iff (c : TraceContext) (path : List Hop) (hu : ∀ h ∈ path, h.Unstated) :
    (∀ x ∈ points c path, x.carried = c.carried) ↔ KeepsAlong c path := by
  -- The induction follows the path; the ingress of the rest is the context behind the hop.
  induction path generalizing c with
  | nil =>
    constructor
    · exact fun _ => trivial
    · intro _ x hx
      rw [mem_singleton.mp hx]
  | cons h path ih =>
    have hhop := carried_apply_iff c (hu h mem_cons_self)
    have hrest := ih (h.apply c) (fun g hg => hu g (mem_cons_of_mem h hg))
    constructor
    · intro hall
      have hnext : (h.apply c).carried = c.carried :=
        hall _ (mem_cons_of_mem c (mem_points_self _ path))
      refine ⟨hhop.mp hnext, hrest.mp (fun x hx => ?_)⟩
      rw [hnext]
      exact hall x (mem_cons_of_mem c hx)
    · rintro ⟨hkeep, halong⟩ x hx
      rcases mem_cons.mp hx with rfl | hx
      · rfl
      · rw [hrest.mpr halong x hx]
        exact hhop.mpr hkeep

/-- A tracer without an ambient span. -/
def someTracer : Userver := { freshTraceId := "4bf9", freshSpanId := "00f0" }

/-- A sampled message with a valid trace and no baggage keeps its trace state through an
    operator, a delay and a gRPC sink. -/
theorem trace_propagation_iff_valid :
    (∀ h ∈ [Hop.stream (some someTracer), .delay (some someTracer),
      .grpcSink true (some someTracer)], h.Unstated) ∧
    ∀ x ∈ points ⟨true, ⟨"0af7", "b7ad", true, "vendor=value", ""⟩⟩
        [.stream (some someTracer), .delay (some someTracer), .grpcSink true (some someTracer)],
      x.carried = ("", "vendor=value") := by
  have hu : ∀ h ∈ [Hop.stream (some someTracer), .delay (some someTracer),
      .grpcSink true (some someTracer)], h.Unstated := by
    intro h hh u hmem
    have htracer : h.tracer = some someTracer := by
      rcases mem_cons.mp hh with rfl | hh
      · rfl
      rcases mem_cons.mp hh with rfl | hh
      · rfl
      rw [mem_singleton.mp hh]
      rfl
    rw [htracer] at hmem
    cases hmem
    rfl
  refine ⟨hu, (trace_propagation_iff _ _ hu).mpr ?_⟩
  exact ⟨nofun, fun _ => ⟨rfl, .inl rfl⟩, fun _ => ⟨rfl, .inl rfl⟩, trivial⟩

/-- A sampled message with a valid trace. -/
def validIngress : TraceContext := ⟨true, ⟨"0af7", "b7ad", true, "vendor=value", "tenant=acme"⟩⟩

/-- A sampled message whose trace has no identifiers. -/
def invalidIngress : TraceContext := ⟨true, ⟨"", "", false, "vendor=value", "tenant=acme"⟩⟩

/-- **Baggage and trace state are lost.**  A sampled message with a valid trace loses its
    baggage in a delay; one whose trace is not valid loses both in a gRPC sink.  An ordinary
    span keeps both in each case. -/
theorem trace_propagation_lost :
    someTracer.inheritedOtelTraceState = "" ∧
    (∃ x ∈ points validIngress [.delay (some someTracer)], x.carried ≠ validIngress.carried) ∧
    (delayConsume (some someTracer) validIngress).carried = ("", "vendor=value") ∧
    (∃ x ∈ points invalidIngress [.grpcSink true (some someTracer)],
      x.carried ≠ invalidIngress.carried) ∧
    (startDetachedTrace true (some someTracer) invalidIngress).carried = ("", "") ∧
    (∀ x ∈ points validIngress [.stream (some someTracer)],
      x.carried = validIngress.carried) ∧
    ∀ x ∈ points invalidIngress [.stream (some someTracer)],
      x.carried = invalidIngress.carried := by
  decide

end ServiceLib.Tracing
