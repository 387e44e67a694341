import ServiceLib.Source.Steps

namespace ServiceLib.Source

/-!
# Source endpoints — which callback a completed one removes

`consumeResult` looks a callback up by message id, calls it without `callbacksMutex`, and if it
returns true erases *the message id*, in all four kinds of endpoint.  A callback that was
registered under the id meanwhile is erased in place of the one that returned.
-/

open AList

variable {P : Endpoint} {s s' : State} {r r' : Request}

/-- Whether a delivery is about to erase message id `m` of request `i`. -/
def DeliveryPc.erases (i : RequestId) (m : MessageId) : DeliveryPc → Bool
  | .erasing i' m' _ => i' == i && m' == m
  | _ => false

/-- The callback that a delivery has called is still registered, or none is. -/
def State.inPlace (s : State) (x : Delivery) : Bool :=
  match x.pc with
  | .calling i m g =>
    (s.requests[i]?).all (fun r => (r.result.callbacks.lookup m).all (fun g' => g' = g))
  | _ => true

/-- A callback that returns true finds no other one in its place, and none is registered under
    its message id until that is erased. -/
def registersApart (s : State) : Action → Prop
  | .setResultCallback i m _ => ∀ x ∈ s.deliveries, x.pc.erases i m = false
  | .delivery d answer =>
    answer = .remove true → (s.deliveries[d]?).all s.inPlace
  | _ => True

instance (s : State) : (a : Action) → Decidable (registersApart s a)
  | .setResultCallback _ _ _ => inferInstanceAs (Decidable (∀ x ∈ s.deliveries, _ = false))
  | .delivery _ _ => inferInstanceAs (Decidable (_ → _))
  | .tick _ | .fire _ | .requestStop | .receive _ | .begin _ _ | .request _ _ | .notify _ _
  | .notifyStop _ | .complete _ | .signal _ | .wake _ | .consumeResult _ | .callSend _
  | .send _ _ | .rotate _ => inferInstanceAs (Decidable True)

/-! ### What a step does to a registration -/

variable {a : Action} {i : RequestId} {m : MessageId} {g : Registration} {d : Nat}

/-- Only `setResultCallback` puts a registration under a message id. -/
theorem StepMove.lookup (h : StepMove P s a s') (hr : s'.requests[i]? = some r')
    (ha : ∀ callable, a ≠ .setResultCallback i m callable) :
    r'.result.callbacks.lookup m = none ∨
      ∃ r, s.requests[i]? = some r ∧
        r'.result.callbacks.lookup m = r.result.callbacks.lookup m := by
  rcases h.request hr with ⟨ctx, rfl⟩ | ⟨r, hi, rfl | ⟨-, hcause⟩⟩
  · exact .inl (lookup_empty m)
  · exact .inr ⟨r', hi, rfl⟩
  · rcases hcause.callbacks with hsame | hempty | ⟨m', herase⟩ | ⟨m', callable, g, rfl, hinsert⟩
    · exact .inr ⟨r, hi, by rw [hsame]⟩
    · left
      rw [hempty]
      exact lookup_empty m
    · by_cases hm : m = m'
      · left
        rw [herase, hm]
        exact lookup_erase _ _
      · right
        refine ⟨r, hi, ?_⟩
        rw [herase, lookup_erase_ne hm]
    · have hm : m ≠ m' := by
        rintro rfl
        exact ha callable rfl
      exact .inr ⟨r, hi, by rw [hinsert, lookup_insert_ne hm]⟩

/-- A delivery that a step leaves behind is new, or was there, or is the one that moved. -/
theorem StepMove.delivery (h : StepMove P s a s') {x' : Delivery}
    (hx : s'.deliveries[d]? = some x') :
    x'.pc = .looking ∨ s.deliveries[d]? = some x' ∨
      ∃ x answer, a = .delivery d answer ∧ s.deliveries[d]? = some x ∧
        DeliveryMove s d x answer s' := by
  cases h with
  | arrived streamId =>
    rcases getElem?_append_singleton_cases hx with hx | ⟨-, rfl⟩
    · exact .inr (.inl hx)
    · exact .inl rfl
  | delivered d' answer x _ hx' hm =>
    have hother : d' ≠ d → s.deliveries[d]? = some x' := by
      intro hne
      cases hm <;> exact (List.getElem?_set_ne hne).symm.trans hx
    by_cases hd : d' = d
    · subst hd
      exact .inr (.inr ⟨x, answer, rfl, hx', hm⟩)
    · exact .inr (.inl (hother hd))
  | sent _ _ _ _ _ _ _ hm =>
    cases hm <;> exact .inr (.inl hx)
  | _ => exact .inr (.inl hx)

/-! ### Registrations that are about to be erased -/

/-- Under the message id that a delivery is about to erase there is the registration that it has
    called, or none. -/
def Undisturbed (s : State) : Prop :=
  ∀ (d : Nat) x i m g, s.deliveries[d]? = some x → x.pc = .erasing i m g →
    ∀ r, s.requests[i]? = some r →
      r.result.callbacks.lookup m = some g ∨ r.result.callbacks.lookup m = none

/-- A delivery comes to erasing from a callback that returned true. -/
theorem DeliveryMove.erasing {x x' : Delivery} {answer : Answer}
    (hm : DeliveryMove s d x answer s') (hx : s'.deliveries[d]? = some x')
    (hpc : x'.pc = .erasing i m g) : x.pc = .calling i m g ∧ answer = .remove true := by
  have hset : ∀ {pc : DeliveryPc}, (s.deliveries.set d { x with pc := pc })[d]? = some x' →
      pc = .erasing i m g := by
    intro pc hx
    rcases getElem?_set_cases hx with ⟨-, rfl⟩ | ⟨hne, -⟩
    · exact hpc
    · exact absurd rfl hne
  cases hm with
  | looked pc _ hend | left i' r pc _ _ hend | erased i' r m' g' pc _ _ hend =>
    rw [hset hx] at hend
    cases hend
  | found | entered | confirmed | called => cases hset hx
  | returned i' m' g' hcalling hanswer =>
    cases hset hx
    exact ⟨hcalling, hanswer⟩

/-- **Step lemma.**  The registration of a callback that returned true stays in its place. -/
theorem Undisturbed.step
    (h : Undisturbed s) (hok : registersApart s a) (hs : step P s a = some s') :
    Undisturbed s' := by
  have hmove := step_moved hs
  intro d x' i m g hx hpc r' hr'
  rcases hmove.delivery hx with hlooking | hx' | ⟨x, answer, rfl, hx', hm⟩
  · rw [hpc] at hlooking
    cases hlooking
  · -- The delivery did not move, so nothing is registered under its message id.
    have ha : ∀ callable, a ≠ .setResultCallback i m callable := by
      rintro callable rfl
      have hfree := hok x' (List.mem_of_getElem? hx')
      simp [hpc, DeliveryPc.erases] at hfree
    rcases hmove.lookup hr' ha with hnone | ⟨r, hr, hsame⟩
    · exact .inr hnone
    · rw [hsame]
      exact h d x' i m g hx' hpc r hr
  · rcases hmove.lookup (m := m) hr' nofun with hnone | ⟨r, hr, hsame⟩
    · exact .inr hnone
    · obtain ⟨hcalling, hanswer⟩ := hm.erasing hx hpc
      have hplace := hok hanswer
      simp only [hx', Option.all_some, State.inPlace, hcalling, hr] at hplace
      rw [hsame]
      cases hg : r.result.callbacks.lookup m with
      | none => exact .inr rfl
      | some g' =>
        rw [hg, Option.all_some, decide_eq_true_eq] at hplace
        exact .inl (by rw [hplace])

theorem undisturbed_of_reachable (hs : (system P).ReachableIf registersApart s) :
    Undisturbed s := by
  refine hs.invariant ?_ ?_
  · intro d x i m g hx
    cases hx
  · intro s a s' _ ih hok hstep
    exact ih.step hok hstep

/-- **A completed callback removes its own registration only.**  If a callback that returns true
    finds no other one in its place, and none is registered there until its delivery has erased
    the message id, then the delivery removes no registration but the one that it has called. -/
theorem completion_removes_invoked {d : Nat} {x : Delivery} {i : RequestId} {m : MessageId}
    {g : Registration} {answer : Answer} (hs : (system P).ReachableIf registersApart s)
    (hx : s.deliveries[d]? = some x) (hpc : x.pc = .erasing i m g)
    (hstep : step P s (.delivery d answer) = some s') {j : RequestId}
    (hr : s.requests[j]? = some r) (hr' : s'.requests[j]? = some r') {m' : MessageId}
    {g' : Registration} (hg : r.result.callbacks.lookup m' = some g') :
    r'.result.callbacks.lookup m' = some g' ∨ j = i ∧ m' = m ∧ g' = g := by
  have hundisturbed := undisturbed_of_reachable hs
  obtain ⟨x₀, hx₀, hm⟩ := deliveryStep_moved hstep
  obtain rfl : x₀ = x := Option.some.inj (hx₀.symm.trans hx)
  cases hm with
  | erased i' r₀ m₀ g₀ pc hpc' hr₀ _ =>
    rw [hpc] at hpc'
    cases hpc'
    rcases getElem?_set_cases hr' with ⟨rfl, rfl⟩ | ⟨-, hsame⟩
    · obtain rfl : r₀ = r := Option.some.inj (hr₀.symm.trans hr)
      by_cases hm' : m' = m
      · subst hm'
        right
        rcases hundisturbed d x₀ j m' g hx hpc r₀ hr with hown | hnone
        · exact ⟨rfl, rfl, Option.some.inj (hg.symm.trans hown)⟩
        · simp [hnone] at hg
      · left
        exact (lookup_erase_ne hm').trans hg
    · left
      cases hr.symm.trans hsame
      exact hg
  | left i' r₀ pc hinside hr₀ _ =>
    left
    rcases getElem?_set_cases hr' with ⟨rfl, rfl⟩ | ⟨-, hsame⟩
    · cases hr₀.symm.trans hr
      exact hg
    · cases hr.symm.trans hsame
      exact hg
  | looked _ hpc' | found _ _ hpc' | entered _ _ hpc' | confirmed _ hpc' | called _ _ _ _ hpc'
  | returned _ _ _ hpc' => rw [hpc] at hpc'; cases hpc'

/-! ### Runs -/

/-- An endpoint with a result stream. -/
def withResult (kind : Kind) : Endpoint where
  kind := kind
  hasResult := true
  hash := id
  minCapacity := 4

/-- A context that is never cancelled. -/
def background : Context := ⟨none, none, []⟩

/-- A request is registered under stream id 5 and reaches `consumeMessage`. -/
def oneRequest : List Action :=
  [.receive background, .begin 0 (some (background, 5)), .request 0 .go, .request 0 .go]

/-- A result for it arrives, and message id 7 is looked up. -/
def oneResult : List Action :=
  [.consumeResult (some 5), .delivery 0 .throws, .delivery 0 .throws, .delivery 0 .throws,
   .delivery 0 (.message 7)]

theorem completion_removes_invoked_alone :
    ∃ s s' x r r', (system (withResult .http)).ReachableIf registersApart s ∧
      s.deliveries[0]? = some x ∧ x.pc = .erasing 0 7 ⟨0, true⟩ ∧
      step (withResult .http) s (.delivery 0 .throws) = some s' ∧
      s.requests[0]? = some r ∧ s'.requests[0]? = some r' ∧
      r.result.callbacks.lookup 8 = some ⟨1, true⟩ ∧
      r'.result.callbacks.lookup 8 = some ⟨1, true⟩ := by
  obtain ⟨s, hs, ⟨x, hx, hpc⟩, ⟨r, hr, hlookup⟩, s', hstep, hsome⟩ :=
    (system (withResult .http)).exists_reachableIf_of_run registersApart
    ([oneRequest, [.setResultCallback 0 7 true], oneResult,
      [.setResultCallback 0 8 true, .delivery 0 (.remove true)]].flatten)
    (fun s => (∃ x, s.deliveries[0]? = some x ∧ x.pc = .erasing 0 7 ⟨0, true⟩) ∧
      (∃ r, s.requests[0]? = some r ∧ r.result.callbacks.lookup 8 = some ⟨1, true⟩) ∧
      ∃ s', step (withResult .http) s (.delivery 0 .throws) = some s' ∧ s'.requests[0]?.isSome)
    (by decide +kernel)
  obtain ⟨r', hr'⟩ := Option.isSome_iff_exists.mp hsome
  refine ⟨s, s', x, r, r', hs, hx, hpc, hstep, hr, hr', hlookup, ?_⟩
  rcases completion_removes_invoked hs hx hpc hstep hr hr' hlookup with hsame | ⟨-, hm, -⟩
  · exact hsame
  · cases hm

/-- In an endpoint of kind `kind`, a completed callback removes a registration that is newer
    than its own. -/
def RemovesNewer (kind : Kind) : Prop :=
  ∃ s s' x r r' g g', (system (withResult kind)).Reachable s ∧
    s.deliveries[0]? = some x ∧ x.pc = .erasing 0 7 g ∧
    step (withResult kind) s (.delivery 0 .throws) = some s' ∧
    s.requests[0]? = some r ∧ s'.requests[0]? = some r' ∧
    r.result.callbacks.lookup 7 = some g' ∧ g.id < g'.id ∧
    r'.result.callbacks.lookup 7 = none

/-- The running callback registers another one under its message id, and returns true. -/
def replaced : List Action :=
  [oneRequest, [.setResultCallback 0 7 true], oneResult,
   [.setResultCallback 0 7 true, .delivery 0 (.remove true)]].flatten

theorem removesNewer_of_run {kind : Kind}
    (h : ((system (withResult kind)).run replaced).any (fun s =>
      (∃ x, s.deliveries[0]? = some x ∧ x.pc = .erasing 0 7 ⟨0, true⟩) ∧
      (∃ r, s.requests[0]? = some r ∧ r.result.callbacks.lookup 7 = some ⟨1, true⟩) ∧
      ∃ s', step (withResult kind) s (.delivery 0 .throws) = some s' ∧
        ∃ r', s'.requests[0]? = some r' ∧ r'.result.callbacks.lookup 7 = none)) :
    RemovesNewer kind := by
  obtain ⟨s, hs, ⟨x, hx, hpc⟩, ⟨r, hr, hlookup⟩, s', hstep, r', hr', hnone⟩ :=
    System.exists_reachable_of_run _ _ _ h
  exact ⟨s, s', x, r, r', _, _, hs, hx, hpc, hstep, hr, hr', hlookup, by decide, hnone⟩

/-- **A completed callback removes a newer one**, in every kind of endpoint. -/
theorem completion_removes_newer :
    RemovesNewer .localSource ∧ RemovesNewer .kafka ∧ RemovesNewer .http ∧
      ∀ method, RemovesNewer (.grpc method) := by
  refine ⟨removesNewer_of_run (by decide +kernel), removesNewer_of_run (by decide +kernel),
    removesNewer_of_run (by decide +kernel), ?_⟩
  intro method
  cases method <;> exact removesNewer_of_run (by decide +kernel)

end ServiceLib.Source
