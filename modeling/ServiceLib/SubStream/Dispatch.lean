import ServiceLib.SubStream.Progress

namespace ServiceLib.SubStream

/-!
# SubStream calls — contexts and results

Every invocation of a `SubStream` binds its call to the key of that stream in the context it
gives to the body; what comes out of the body reaches the `ResultLink` with some context that
was derived from it.  Streams are identified by their keys.

* `system` — any number of nested and concurrent invocations; bodies may derive contexts, keep
  them and emit results with them whenever they like.

The span of an invocation and the tokens of the input gate are left out.
-/

open List Option

/-! ### Contexts -/

/-- `LocalContextValue`: call `value` under a key. -/
structure Binding where
  key : Nat
  value : Nat
  deriving DecidableEq, Repr

/-- `MessageContext`, without what no function here looks at. -/
structure MessageContext where
  context : Context
  localValues : List Binding
  deriving DecidableEq, Repr

namespace MessageContext

/-- The loop of `localValue`, from a binding on. -/
def find (key : Nat) : List Binding → Option Nat
  | [] => none
  | binding :: parent => if binding.key = key then some binding.value else find key parent

/-- `MessageContext::localValue`. -/
def localValue (m : MessageContext) (key : Nat) : Option Nat := find key m.localValues

/-- `MessageContext::withLocalValue`. -/
def withLocalValue (m : MessageContext) (key value : Nat) : MessageContext :=
  { m with localValues := ⟨key, value⟩ :: m.localValues }

theorem localValue_withLocalValue (m : MessageContext) (key value key' : Nat) :
    (m.withLocalValue key value).localValue key' =
      if key = key' then some value else m.localValue key' := rfl

end MessageContext

/-- How a context came about. -/
inductive Origin
  /-- `MessageContext()`, or one made from a plain `Context`. -/
  | root
  /-- One of the other `with` functions, from context `parent`. -/
  | derived (parent : Nat)
  /-- The child of call `call` of stream `key`, which was given context `parent`. -/
  | child (parent key call : Nat)
  deriving DecidableEq, Repr

/-! ### State -/

/-- A context somebody has, with its origin, which is history. -/
structure Known where
  message : MessageContext
  origin : Origin
  deriving DecidableEq, Repr

/-- A call of stream `key`, made with `context`. -/
structure Invocation (R E : Type) where
  key : Nat
  context : Context
  call : SubStreamCall R E
  deriving DecidableEq, Repr

structure State (R E : Type) where
  world : World
  contexts : List Known
  invocations : List (Invocation R E)
  deriving DecidableEq, Repr

inductive Action (R E : Type)
  /-- Time passes, or a stop source is triggered. -/
  | advance
  | fire (token : TokenId)
  | root (context : Context)
  | derive (parent : Nat) (context : Context)
  /-- `SubStream::consume` of stream `key` with context `parent`. -/
  | invoke (key parent : Nat)
  /-- `ResultLink::consume` of stream `key` with context `via`. -/
  | emit (key via : Nat) (value : R)
  /-- A stop callback calls `cancel`, the caller comes to `wait`, or leaves. -/
  | cancel (call : Nat)
  | wait (call : Nat)
  | close (call : Nat)
  /-- Coroutine `t` of a call takes a step. -/
  | run (call t : Nat) (o : Choice E)

variable {R E : Type}

namespace State

def init : State R E where
  world := ⟨0, []⟩
  contexts := []
  invocations := []

def learn (s : State R E) (message : MessageContext) (origin : Origin) : State R E :=
  { s with contexts := s.contexts ++ [⟨message, origin⟩] }

/-- An operation on call `n` begins. -/
def begin (s : State R E) (n : Nat) (op : Op R) : Option (State R E) :=
  match s.invocations[n]? with
  | none => none
  | some v => some { s with invocations := s.invocations.set n { v with call := v.call.begin op } }

/-- `SubStream::consume` up to the body: the call is made and bound. -/
def invoke (s : State R E) (key parent : Nat) : Option (State R E) :=
  match s.contexts[parent]? with
  | none => none
  | some known =>
    -- "SubStream invocation cancelled"
    if known.message.context.cancelled s.world then some s
    else
      let call := s.invocations.length
      some { s.learn (known.message.withLocalValue key call) (.child parent key call) with
        invocations := s.invocations ++
          [⟨key, known.message.context, .init known.message.context⟩] }

/-- `ResultLink::consume`. -/
def emit (s : State R E) (key via : Nat) (value : R) : Option (State R E) :=
  match s.contexts[via]? with
  | none => none
  | some known =>
    match known.message.localValue key with
    | none => some s
    | some call => s.begin call (.deliver value via)

/-- The caller comes to `wait`, with the deadline of its context. -/
def wait (s : State R E) (n : Nat) : Option (State R E) :=
  match s.invocations[n]? with
  | none => none
  | some v => s.begin n (.wait v.context.deadline)

def run (s : State R E) (n t : Nat) (o : Choice E) : Option (State R E) :=
  match s.invocations[n]? with
  | none => none
  | some v => (v.call.runStep s.world t o).map (fun call =>
      { s with invocations := s.invocations.set n { v with call := call } })

end State

def step (s : State R E) : Action R E → Option (State R E)
  | .advance => some { s with world := { s.world with now := s.world.now + 1 } }
  | .fire token => some { s with world := { s.world with fired := token :: s.world.fired } }
  | .root context => some (s.learn ⟨context, []⟩ .root)
  | .derive parent context => s.contexts[parent]?.map (fun known =>
      s.learn { known.message with context := context } (.derived parent))
  | .invoke key parent => s.invoke key parent
  | .emit key via value => s.emit key via value
  | .cancel n => s.begin n .cancel
  | .wait n => s.wait n
  | .close n => s.begin n .close
  | .run n t o => s.run n t o

def system (R E : Type) : System (State R E) (Action R E) where
  init := State.init
  step := step

/-! ### The call a context carries -/

/-- Context `n` was derived from the child of `call`, and in between `key` was not bound again. -/
inductive Carries (contexts : List Known) (key : Nat) : Nat → Nat → Prop
  | child {n parent call : Nat} {message : MessageContext}
      (h : contexts[n]? = some ⟨message, .child parent key call⟩) : Carries contexts key n call
  | nested {n parent key' call' call : Nat} {message : MessageContext}
      (h : contexts[n]? = some ⟨message, .child parent key' call'⟩) (hne : key' ≠ key)
      (hparent : Carries contexts key parent call) : Carries contexts key n call
  | derived {n parent call : Nat} {message : MessageContext}
      (h : contexts[n]? = some ⟨message, .derived parent⟩)
      (hparent : Carries contexts key parent call) : Carries contexts key n call

variable {contexts : List Known} {key n call : Nat}

/-- A context carries at most one call of a stream. -/
theorem Carries.functional (h : Carries contexts key n call) {call' : Nat}
    (h' : Carries contexts key n call') : call = call' := by
  induction h with
  | child hn =>
    cases h' with
    | child hn' => cases hn.symm.trans hn'; rfl
    | nested hn' hne => cases hn.symm.trans hn'; exact absurd rfl hne
    | derived hn' => cases hn.symm.trans hn'
  | nested hn hne _ ih =>
    cases h' with
    | child hn' => cases hn.symm.trans hn'; exact absurd rfl hne
    | nested hn' _ hparent => cases hn.symm.trans hn'; exact ih hparent
    | derived hn' => cases hn.symm.trans hn'
  | derived hn _ ih =>
    cases h' with
    | child hn' | nested hn' => cases hn.symm.trans hn'
    | derived hn' hparent => cases hn.symm.trans hn'; exact ih hparent

/-- New contexts change nothing for the others. -/
theorem Carries.learn (h : Carries contexts key n call) (known : Known) :
    Carries (contexts ++ [known]) key n call := by
  induction h with
  | child hn => exact .child (getElem?_concat hn known)
  | nested hn hne _ ih => exact .nested (getElem?_concat hn known) hne ih
  | derived hn _ ih => exact .derived (getElem?_concat hn known) ih

/-! ### Where the results of a call come from -/

/-- Every result that is on its way to the collector, or got there, came with a context that
    satisfies `P`. -/
structure Sources (c : SubStreamCall R E) (P : Nat → Prop) : Prop where
  pending : ∀ x ∈ c.threads, ∀ value via, x.op = .deliver value via → P via
  invoked : ∀ p ∈ c.invoked, P p.2

variable {c c' : SubStreamCall R E} {P : Nat → Prop} {o : Choice E} {op : Op R} {t : Nat}

theorem Sources.imp (h : Sources c P) {Q : Nat → Prop} (himp : ∀ via, P via → Q via) :
    Sources c Q :=
  ⟨fun x hx value via hop => himp via (h.pending x hx value via hop),
    fun p hp => himp p.2 (h.invoked p hp)⟩

theorem Sources.begin (h : Sources c P)
    (hop : ∀ value via, op = .deliver value via → P via) : Sources (c.begin op) P where
  pending := forall_mem_concat h.pending hop
  invoked := h.invoked

theorem Sources.runStep (h : Sources c P) {w : World}
    (hs : c.runStep w t o = some c') : Sources c' P := by
  obtain ⟨op, pc, d, pc', ht, hm, rfl⟩ := SubStreamCall.runStep_move hs
  have hx := mem_of_getElem? ht
  constructor
  · change ∀ x ∈ d.threads.set t _, _
    rw [hm.threads]
    exact forall_mem_set h.pending (h.pending ⟨op, pc⟩ hx)
  · change ∀ p ∈ d.invoked, _
    cases hm with
    | call value via hop => exact forall_mem_concat h.invoked (h.pending _ hx value via hop)
    | _ => exact h.invoked

/-! ### The invariant -/

structure DispatchInv (s : State R E) : Prop where
  calls : ∀ v ∈ s.invocations, CallInv v.call
  /-- A child is that of a call of its stream. -/
  made : ∀ (n : Nat) message parent key call,
    s.contexts[n]? = some ⟨message, .child parent key call⟩ →
      s.invocations[call]?.map Invocation.key = some key
  bound : ∀ (n : Nat) known, s.contexts[n]? = some known → ∀ key call,
    known.message.localValue key = some call → Carries s.contexts key n call
  sources : ∀ (n : Nat) v, s.invocations[n]? = some v →
    Sources v.call (fun via => Carries s.contexts v.key via n)

variable {s s' : State R E}

section

variable (h : DispatchInv s)
include h

namespace DispatchInv

/-- The call a context carries is one of that stream. -/
theorem key_of_carries (hc : Carries s.contexts key n call) :
    s.invocations[call]?.map Invocation.key = some key := by
  induction hc with
  | child hn => exact h.made _ _ _ _ _ hn
  | nested _ _ _ ih => exact ih
  | derived _ _ ih => exact ih

/-- Call `n` changes. -/
theorem setCall {v : Invocation R E} (hv : s.invocations[n]? = some v)
    {call' : SubStreamCall R E} (hcall : CallInv call')
    (hsources : Sources call' (fun via => Carries s.contexts v.key via n)) :
    DispatchInv { s with invocations := s.invocations.set n { v with call := call' } } where
  calls := forall_mem_set h.calls hcall
  made m message parent key call hm := by
    rw [← h.made m message parent key call hm, getElem?_set]
    split
    next heq =>
      subst heq
      rw [if_pos (lt_of_getElem? hv), hv]
      rfl
    next => rfl
  bound := h.bound
  sources := forall_getElem?_set h.sources hsources

theorem begin (hop : ∀ v, s.invocations[n]? = some v → ∀ value via, op =
    .deliver value via → Carries s.contexts v.key via n) (hs : s.begin n op = some s') :
    DispatchInv s' := by
  unfold State.begin at hs
  split at hs
  case h_1 => cases hs
  case h_2 v hv =>
    cases hs
    exact h.setCall hv ((h.calls v (mem_of_getElem? hv)).begin op)
      ((h.sources n v hv).begin (hop v hv))

/-- A context is added whose local values are those its origin says. -/
theorem learn {message : MessageContext} {origin : Origin} (hmade : ∀ parent key call,
    origin = .child parent key call → s.invocations[call]?.map Invocation.key = some key) (hbound :
    ∀ key call, message.localValue key = some call → Carries (s.contexts ++ [⟨message, origin⟩]) key
    s.contexts.length call) : DispatchInv (s.learn message origin) where
  calls := h.calls
  made m message' parent key call hm := by
    rcases getElem?_append_singleton_cases hm with hold | ⟨-, hnew⟩
    · exact h.made m message' parent key call hold
    · cases hnew
      exact hmade parent key call rfl
  bound m known hm key call hlocal := by
    rcases getElem?_append_singleton_cases hm with hold | ⟨rfl, rfl⟩
    · exact (h.bound m known hold key call hlocal).learn _
    · exact hbound key call hlocal
  sources m v hv := (h.sources m v hv).imp (fun _ hc => hc.learn _)

/-- A call is made that nobody knows yet. -/
theorem append (key : Nat) (context : Context) :
    DispatchInv { s with invocations := s.invocations ++ [⟨key, context, .init context⟩] } where
  calls := forall_mem_concat h.calls (callInv_init context)
  made m message parent key call hm := by
    obtain ⟨v, hv, hkey⟩ := map_eq_some_iff.mp (h.made m message parent key call hm)
    exact map_eq_some_iff.mpr ⟨v, getElem?_concat hv _, hkey⟩
  bound := h.bound
  sources := forall_getElem?_concat h.sources ⟨fun _ hx => (nomatch hx), fun _ hp => (nomatch hp)⟩

theorem invoke {parent : Nat} (hs : s.invoke key parent = some s') : DispatchInv s' := by
  unfold State.invoke at hs
  split at hs
  case h_1 => cases hs
  case h_2 known hknown =>
    split at hs
    case isTrue => cases hs; exact h
    case isFalse =>
      cases hs
      refine (h.append key known.message.context).learn (fun _ _ _ horigin => ?_)
        (fun key' call hlocal => ?_)
      · cases horigin
        change (s.invocations ++ [_])[s.invocations.length]?.map _ = _
        rw [getElem?_concat_length]
        rfl
      · have hnew := getElem?_concat_length (l := s.contexts)
          (a := ⟨known.message.withLocalValue key s.invocations.length,
            .child parent key s.invocations.length⟩)
        rw [MessageContext.localValue_withLocalValue] at hlocal
        split at hlocal
        next heq =>
          cases hlocal
          subst heq
          exact .child hnew
        next hne => exact .nested hnew hne ((h.bound parent known hknown key' call hlocal).learn _)

theorem emit {via : Nat} {value : R} (hs : s.emit key via value = some s') : DispatchInv s' := by
  unfold State.emit at hs
  split at hs
  case h_1 => cases hs
  case h_2 known hknown =>
    split at hs
    case h_1 => cases hs; exact h
    case h_2 call hlocal =>
      have hcarries := h.bound via known hknown key call hlocal
      refine h.begin (fun v hv value' via' hop => ?_) hs
      cases hop
      have hkey := h.key_of_carries hcarries
      rw [hv] at hkey
      cases hkey
      exact hcarries

theorem run (hs : s.run n t o = some s') : DispatchInv s' := by
  unfold State.run at hs
  split at hs
  case h_1 => cases hs
  case h_2 v hv =>
    obtain ⟨call', hcall', rfl⟩ := map_eq_some_iff.mp hs
    exact h.setCall hv ((h.calls v (mem_of_getElem? hv)).runStep hcall')
      ((h.sources n v hv).runStep hcall')

end DispatchInv

end

theorem dispatchInv_init : DispatchInv (State.init : State R E) where
  calls _ h := nomatch h
  made _ _ _ _ _ h := nomatch h
  bound _ _ h := nomatch h
  sources _ _ h := nomatch h

/-- **Calls and contexts, in every run.** -/
theorem dispatchInv_of_reachable (h : (system R E).Reachable s) : DispatchInv s := by
  refine h.invariant dispatchInv_init (fun {s a s'} _ hinv _ hs => ?_)
  have hs : step s a = some s' := hs
  cases a with
  | advance | fire => cases hs; exact ⟨hinv.calls, hinv.made, hinv.bound, hinv.sources⟩
  | root context =>
    cases hs
    exact hinv.learn (by rintro _ _ _ ⟨⟩) (by rintro _ _ ⟨⟩)
  | derive parent context =>
    obtain ⟨known, hknown, rfl⟩ := map_eq_some_iff.mp hs
    refine hinv.learn (by rintro _ _ _ ⟨⟩) (fun key call hlocal => ?_)
    exact .derived getElem?_concat_length
      ((hinv.bound parent known hknown key call hlocal).learn _)
  | invoke key parent => exact hinv.invoke hs
  | emit key via value => exact hinv.emit hs
  | cancel n | close n => exact hinv.begin (by rintro _ _ _ _ ⟨⟩) hs
  | wait n =>
    have hs : s.wait n = some s' := hs
    unfold State.wait at hs
    split at hs
    case h_1 => cases hs
    case h_2 => exact hinv.begin (by rintro _ _ _ _ ⟨⟩) hs
  | run n t o => exact hinv.run hs

end ServiceLib.SubStream
