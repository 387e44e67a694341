import ServiceLib.Lib.AssocList
import ServiceLib.Tracing.TraceParent

namespace ServiceLib.Kafka

/-!
# Message contexts in Kafka headers

The Kafka sink writes the context of a message into its headers, and the Kafka source reads a
context back from them (`kafkaContext_roundTrip`).
-/

open AssocList Tracing

/-- The part of a `MessageContext` that travels in headers. -/
structure MessageContext extends TraceContext where
  streamId : String
  deriving DecidableEq, Repr

/-- `MessageContext{}`. -/
def MessageContext.default : MessageContext := ⟨⟨false, {}⟩, ""⟩

/-- A `std::map` from header names to their values. -/
abbrev KafkaHeaders := List (String × String)

def contextFromKafkaHeaders (context : MessageContext) (headers : KafkaHeaders)
    (tracingEnabled : Bool) : MessageContext :=
  let context :=
    match headers.lookup "x-stream-id" with
    | some id => if id = "" then context else { context with streamId := id }
    | none => context
  if !tracingEnabled then context
  else
    let parent := headers.lookup "traceparent"
    let propagation := (parent.bind parseTraceParent).getD {}
    let context :=
      if parent.any sampledTraceParent then { context with samplingEnabled := true } else context
    let propagation :=
      { propagation with
        traceState := (headers.lookup "tracestate").getD propagation.traceState
        baggage := (headers.lookup "baggage").getD propagation.baggage }
    let context :=
      if propagation.valid || propagation.traceState != "" || propagation.baggage != "" then
        { context with trace := propagation }
      else context
    if (headers.lookup "x-trace").any (· != "") then { context with samplingEnabled := true }
    else context

/-- `if (condition) headers[key] = value;` -/
def assignIf (condition : Bool) (key value : String) (headers : KafkaHeaders) : KafkaHeaders :=
  if condition then assign key value headers else headers

/-- The header `InjectKafkaContext` writes for a valid trace. -/
def traceParent (context : MessageContext) : String :=
  "00-" ++ context.trace.traceId ++ "-" ++ context.trace.spanId ++
    (if context.samplingEnabled then "-01" else "-00")

def injectKafkaContext (context : MessageContext) (headers : KafkaHeaders)
    (tracingEnabled : Bool) : KafkaHeaders :=
  let headers := assignIf (context.streamId != "") "x-stream-id" context.streamId headers
  if !tracingEnabled then headers
  else
    let trace := context.trace
    headers
      |> assignIf trace.valid "traceparent" (traceParent context)
      |> assignIf (trace.traceState != "") "tracestate" trace.traceState
      |> assignIf (trace.baggage != "") "baggage" trace.baggage
      |> assignIf context.samplingEnabled "x-trace" "1"

/-- An identifier: hexadecimal digits, not all of them zero. -/
def IsId (digits : Nat) (id : String) : Prop :=
  id.toList.length = digits ∧ (∀ ch ∈ id.toList, isHex ch) ∧ ∃ ch ∈ id.toList, ch ≠ '0'

instance (digits : Nat) (id : String) : Decidable (IsId digits id) :=
  inferInstanceAs (Decidable (_ ∧ _ ∧ _))

/-- A trace that can travel: an invalid one without identifiers, or a valid one with both. -/
def Carriable (trace : SpanContext) : Prop :=
  (trace.valid = false ∧ trace.traceId = "" ∧ trace.spanId = "") ∨
    (trace.valid ∧ IsId 32 trace.traceId ∧ IsId 16 trace.spanId)

/-! ### The header of a valid trace -/

variable {context : MessageContext}

section

variable (htrace : IsId 32 context.trace.traceId) (hspan : IsId 16 context.trace.spanId)
include htrace hspan

/-- The header has the form the scanners admit, with version and flags of its own. -/
theorem isTraceParent_traceParent :
    IsTraceParent (traceParent context) "00" context.trace.traceId context.trace.spanId
      (if context.samplingEnabled then "01" else "00") := by
  obtain ⟨htlen, htdigits, htne⟩ := htrace
  obtain ⟨hslen, hsdigits, hsne⟩ := hspan
  have hflags : ∀ ch ∈ (if context.samplingEnabled then "01" else "00").toList,
      isHex ch := by
    cases context.samplingEnabled <;> simp [isHex]
  refine ⟨⟨?_, rfl, htlen, hslen, ?_⟩, ?_, by decide, htne, hsne⟩
  · cases hs : context.samplingEnabled <;> simp [traceParent, hs]
  · cases context.samplingEnabled <;> rfl
  · simp only [String.toList_append, List.forall_mem_append]
    exact ⟨⟨⟨by simp [isHex], htdigits⟩, hsdigits⟩, hflags⟩

theorem parseTraceParent_traceParent :
    parseTraceParent (traceParent context) =
      some { traceId := context.trace.traceId, spanId := context.trace.spanId, valid := true } :=
  have hform := isTraceParent_traceParent htrace hspan
  (parseTraceParent_eq_some_iff hform.toFields hform.spelled).mpr ⟨hform, rfl⟩

theorem sampledTraceParent_traceParent :
    sampledTraceParent (traceParent context) = context.samplingEnabled := by
  have hform := isTraceParent_traceParent htrace hspan
  rw [Bool.eq_iff_iff, sampledTraceParent_iff hform.toFields hform.spelled]
  cases hs : context.samplingEnabled with
  | false => simp [flagsByte, hex]
  | true => exact ⟨fun _ => rfl, fun _ => ⟨hs ▸ hform, by decide⟩⟩

end

/-! ### Round trip -/

theorem lookup_assignIf (condition : Bool) (key key' value : String) (headers : KafkaHeaders) :
    (assignIf condition key value headers).lookup key' =
      if condition ∧ key' = key then some value else headers.lookup key' := by
  cases condition <;> simp [assignIf, lookup_assign]

/-- **What is injected is read back**: the stream id, the sampling flag and the trace with its
    state and baggage. -/
theorem kafkaContext_roundTrip (context : MessageContext) (h : Carriable context.trace) :
    contextFromKafkaHeaders .default (injectKafkaContext context [] true) true = context := by
  generalize hheaders : injectKafkaContext context [] true = headers
  have hid : headers.lookup "x-stream-id" =
      if context.streamId = "" then none else some context.streamId := by
    simp [← hheaders, injectKafkaContext, lookup_assignIf]
  have hparent : headers.lookup "traceparent" =
      if context.trace.valid then some (traceParent context) else none := by
    simp [← hheaders, injectKafkaContext, lookup_assignIf]
  have hstate : (headers.lookup "tracestate").getD "" = context.trace.traceState := by
    by_cases hempty : context.trace.traceState = "" <;>
      simp [← hheaders, injectKafkaContext, lookup_assignIf, hempty]
  have hbaggage : (headers.lookup "baggage").getD "" = context.trace.baggage := by
    by_cases hempty : context.trace.baggage = "" <;>
      simp [← hheaders, injectKafkaContext, lookup_assignIf, hempty]
  have hxtrace : (headers.lookup "x-trace").any (· != "") = context.samplingEnabled := by
    cases hs : context.samplingEnabled <;>
      simp [← hheaders, injectKafkaContext, lookup_assignIf, hs]
  have hpropagation : ((headers.lookup "traceparent").bind parseTraceParent).getD {} =
      { context.trace with traceState := "", baggage := "" } := by
    rcases h with ⟨hvalid, htrace, hspan⟩ | ⟨hvalid, htrace, hspan⟩
    · simp [hparent, hvalid, htrace, hspan]
    · simp [hparent, hvalid, parseTraceParent_traceParent htrace hspan]
  have hsampled : (headers.lookup "traceparent").any sampledTraceParent = true →
      context.samplingEnabled = true := by
    rcases h with ⟨hvalid, -⟩ | ⟨hvalid, htrace, hspan⟩
    · simp [hparent, hvalid]
    · simp [hparent, hvalid, sampledTraceParent_traceParent htrace hspan]
  -- A trace that is not written at all is the default one.
  have hdefault : (context.trace.valid || context.trace.traceState != "" ||
      context.trace.baggage != "") = false → context.trace = {} := by
    obtain ⟨⟨_, traceId, spanId, valid, state, baggage⟩, _⟩ := context
    rcases h with ⟨hvalid, htrace, hspan⟩ | ⟨hvalid, -⟩ <;> simp_all
  simp only [contextFromKafkaHeaders, hpropagation, hstate, hbaggage, hid, hxtrace]
  clear hheaders hid hparent hstate hbaggage hxtrace hpropagation h
  generalize (headers.lookup "traceparent").any sampledTraceParent = sampled at hsampled ⊢
  generalize (context.trace.valid || context.trace.traceState != "" ||
    context.trace.baggage != "") = written at hdefault ⊢
  obtain ⟨⟨sampling, trace⟩, streamId⟩ := context
  by_cases hstream : streamId = "" <;> cases written <;> cases sampling <;> cases sampled <;>
    simp_all [MessageContext.default]

/-- A sampled message with baggage, and one without any trace. -/
theorem kafkaContext_roundTrip_sampled : let trace : SpanContext :=
      ⟨"0123456789abcdef0123456789abcdef", "0123456789abcdef", true, "", "tenant=test"⟩
    Carriable trace ∧ contextFromKafkaHeaders .default
      (injectKafkaContext ⟨⟨true, trace⟩, "stream-42"⟩ [] true) true =
        ⟨⟨true, trace⟩, "stream-42"⟩ :=
  have h : Carriable ⟨"0123456789abcdef0123456789abcdef", "0123456789abcdef", true, "",
      "tenant=test"⟩ := .inr ⟨rfl, by simp [IsId, isHex], by simp [IsId, isHex]⟩
  ⟨h, kafkaContext_roundTrip _ h⟩

end ServiceLib.Kafka
