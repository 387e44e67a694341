import ServiceLib.Source.Flow

namespace ServiceLib.Source

/-!
# Source endpoints — who owns the entries of `pending_`

Finalization removes the entry under the stream id of its request.  In HTTP and gRPC a request
does so only if it was inserted itself (`pendingInserted`); local and Kafka sources do not look.
-/

open Rotating.RotatingMap Request Endpoint

variable {P : Endpoint} {s s' : State} {r r' : Request}

/-- In an endpoint whose finalization does not look at `pendingInserted`, every `pending_.set`
    succeeds: its stream id is not active. -/
def registersAlone (P : Endpoint) (s : State) : Action → Prop
  | .request i choice =>
    P.kind.guardsPop ∨ (s.requests[i]?).all (fun r =>
      r.pc ≠ .registering || choice = .go && (s.pending.get r.streamId).isNone)
  | _ => True

instance (P : Endpoint) (s : State) : (a : Action) → Decidable (registersAlone P s a)
  | .request _ _ => inferInstanceAs (Decidable (_ ∨ _))
  | .tick _ | .fire _ | .requestStop | .receive _ | .begin _ _ | .notify _ _ | .notifyStop _
  | .complete _ | .signal _ | .wake _ | .setResultCallback _ _ _ | .consumeResult _
  | .delivery _ _ | .callSend _ | .send _ _ | .rotate _ => inferInstanceAs (Decidable True)

variable {i : RequestId}

/-- A registration that is made alone does not fail. -/
theorem not_refused_of_registersAlone {choice : Choice}
    (hok : registersAlone P s (.request i choice)) (hk : P.kind.guardsPop = false)
    (hr : s.requests[i]? = some r) (hpc : r.pc = .registering) :
    ¬ (choice = .fail ∨ s.pending.get r.streamId ≠ none) := by
  rcases hok with hk' | hok
  · rw [hk] at hk'
    cases hk'
  · simp only [hr, Option.all_some, hpc, ne_eq, not_true_eq_false, decide_false, Bool.false_or,
      Bool.and_eq_true, decide_eq_true_eq, Option.isNone_iff_eq_none] at hok
    rintro (rfl | hactive)
    · cases hok.1
    · exact hactive hok.2

/-- Every entry belongs to the request that inserted it. -/
structure Owned (P : Endpoint) (s : State) : Prop where
  entry : ∀ k i, s.pending.get k = some i →
    ∃ r, s.requests[i]? = some r ∧ r.pendingInserted ∧ r.streamId = k
  inserted : ∀ (i : RequestId) r, s.requests[i]? = some r → r.pendingInserted →
    s.pending.get r.streamId = some i
  /-- A request that will remove an entry was inserted. -/
  owner : ∀ (i : RequestId) r, s.requests[i]? = some r → P.kind.guardsPop = false →
    P.hasResult → P.registeredAt r.pc → r.pendingInserted

theorem Owned.init (P : Endpoint) : Owned P (.init P) where
  entry k i h := by
    simp [State.init, get_empty] at h
  inserted i r h := by cases h
  owner i r h := by cases h

/-! ### Steps that keep the entries -/

/-- One request moves and keeps what it owns. -/
theorem Owned.set (h : Owned P s) (hr : s.requests[i]? = some r)
    (hins : r'.pendingInserted = r.pendingInserted)
    (hsid : r.pendingInserted → r'.streamId = r.streamId)
    (hpc : P.kind.guardsPop = false → P.hasResult → P.registeredAt r'.pc →
      P.registeredAt r.pc) : Owned P (s.setRequest i r') where
  entry k j hk := by
    obtain ⟨r₁, hr₁, hown⟩ := h.entry k j hk
    refine exists_getElem?_set_of hr ?_ hr₁ hown
    exact fun hown => ⟨hins.trans hown.1, (hsid hown.1).trans hown.2⟩
  inserted := by
    refine forall_getElem?_set h.inserted (fun hins₁ => ?_)
    rw [hsid (hins ▸ hins₁)]
    exact h.inserted i r hr (hins ▸ hins₁)
  owner := forall_getElem?_set h.owner (fun hk hres hat =>
    hins.trans (h.owner i r hr hk hres (hpc hk hres hat)))

/-- A new request owns nothing. -/
theorem Owned.receive (h : Owned P s) (ctx : Context) :
    Owned P { s with requests := s.requests ++ [.new ctx] } where
  entry k j hk := by
    obtain ⟨r, hr, hins⟩ := h.entry k j hk
    exact ⟨r, getElem?_concat hr _, hins⟩
  inserted := forall_getElem?_concat h.inserted (by rintro ⟨⟩)
  owner := forall_getElem?_concat h.owner (by rintro - - ⟨⟩)

/-! ### The steps of a request -/

theorem Kind.guardsPop_of_isGrpc {kind : Kind} (h : kind.isGrpc) : kind.guardsPop := by
  cases kind <;> first | rfl | cases h

theorem Endpoint.registeredAt_of_waits {pc : RequestPc} (h : pc.waits) : P.registeredAt pc := by
  cases pc <;> first | rfl | cases h

/-- Where a local or Kafka request may have an entry, it could have one before. -/
theorem OwnMove.registeredAt_back (hm : OwnMove P r r') (hflow : Flow P r)
    (hk : P.kind.guardsPop = false) (hres : P.hasResult)
    (hat : P.registeredAt r'.pc) : P.registeredAt r.pc := by
  -- The steps that only HTTP and gRPC have.
  have hguarded : ∀ {b : Bool}, (P.kind.guardsPop && b) → False := by
    intro b h
    simp [hk] at h
  have hvisits := hflow.visits
  cases hm with
  | begun b hpc =>
    cases b with
    | none => cases hat
    | some b =>
      rw [show (r.begin P (some b)).pc = .registering by simp [begin, hres]] at hat
      cases hat
  | consumeFailed hpc | consumed hpc | consumedLast hpc | subscribed _ hpc | waitExpired hpc
  | locked hpc =>
    rw [hpc]
    rfl
  | waited _ hpc | waitEnded hpc | waitFailed hpc => exact registeredAt_of_waits hpc
  | settled hpc => simp [hpc, registeredAt, hk]
  | closed hpc =>
    rw [hpc] at hvisits
    exact absurd (hk.symm.trans (Kind.guardsPop_of_isGrpc hvisits)) Bool.false_ne_true
  | cleared hpc =>
    rw [hpc] at hvisits
    exact (hguarded hvisits).elim
  | verified hpc =>
    rw [hpc, visits, Bool.and_assoc] at hvisits
    exact (hguarded hvisits).elim
  | ended _ hpc => cases hat
  | _ => exact hat

/-- Nothing is removed twice. -/
theorem registeredAt_after_removing (hpc : r.pc = .removing) :
    P.registeredAt (r.nextFinal P) = false := by
  obtain ⟨kind, _⟩ := P
  cases kind <;> simp only [nextFinal, hpc] <;> rfl

section

variable (h : Owned P s) (hflow : Flow P r) (hr : s.requests[i]? = some r)
include h hflow hr

/-- `set` succeeds if the key is free. -/
theorem Owned.insert {pending : Rotating.RotatingMap StreamId RequestId} (hpc : r.pc = .registering)
    (hset : s.pending.set r.streamId i = some pending) :
    Owned P { s.setRequest i { r with pc := .adding, pendingInserted := true } with
      pending := pending } := by
  have hlt : i < s.requests.length := lt_of_getElem? hr
  have hfree : s.pending.get r.streamId = none := by
    by_contra hne
    simp [set_eq_none.mpr hne] at hset
  have hget := get_set hset
  have hnot : r.pendingInserted = false := by
    by_contra hins
    have hat := (hflow.inserted (Bool.not_eq_false _ ▸ hins)).2
    rw [hpc] at hat
    cases hat
  refine ⟨?_, ?_, ?_⟩
  · intro k j hk
    rw [hget] at hk
    split at hk
    next heq =>
      cases hk
      exact ⟨_, List.getElem?_set_self hlt, rfl, heq.symm⟩
    next hne =>
      obtain ⟨r₁, hr₁, hown⟩ := h.entry k j hk
      refine exists_getElem?_set_of hr (fun hown => ?_) hr₁ hown
      simp [hnot] at hown
  · simp only [hget]
    refine forall_getElem?_set (fun j r₁ hj hins => ?_) (fun _ => if_pos rfl)
    have hold := h.inserted j r₁ hj hins
    rw [if_neg]
    · exact hold
    · intro heq
      simp [heq, hfree] at hold
  · exact forall_getElem?_set h.owner (fun _ _ _ => rfl)

/-- The request that pops its stream id is the one that is registered under it. -/
theorem Owned.entry_of_popping (hpc : r.pc = .popping) : s.pending.get r.streamId = some i := by
  refine h.inserted i r hr ?_
  cases hk : P.kind.guardsPop with
  | true => exact hflow.popping hk hpc
  | false =>
    have hres := hflow.visits
    rw [hpc] at hres
    exact h.owner i r hr hk hres (by rw [hpc]; rfl)

/-- `pop` gives the entry up. -/
theorem Owned.pop (hpc : r.pc = .popping) :
    Owned P { s.setRequest i { r.goto (r.nextFinal P) with pendingInserted := false } with
      pending := (s.pending.pop r.streamId).2 } := by
  have hown := h.entry_of_popping hflow hr hpc
  have hget := get_pop s.pending r.streamId
  refine ⟨?_, ?_, ?_⟩
  · intro k j hk
    rw [hget] at hk
    split at hk
    next => cases hk
    next hne =>
      obtain ⟨r₁, hr₁, hown⟩ := h.entry k j hk
      exact exists_getElem?_set_of hr (fun hown => absurd hown.2.symm hne) hr₁ hown
  · intro j r₁ hj hins
    rcases getElem?_set_cases hj with ⟨rfl, rfl⟩ | ⟨hij, hj⟩
    · cases hins
    · have hold := h.inserted j r₁ hj hins
      rw [hget, if_neg]
      · exact hold
      · intro heq
        rw [heq, hown] at hold
        cases hold
        exact hij rfl
  · refine forall_getElem?_set h.owner (fun _ _ hat => ?_)
    have hremoving : r.nextFinal P = .removing := by simp [nextFinal, hpc]
    simp only [goto, hremoving] at hat
    cases hat

end

/-! ### Runs -/

/-- **Step lemma.**  No step takes an entry from the request that owns it. -/
theorem Owned.step {a : Action} (h : Owned P s)
    (hflow : ∀ (i : RequestId) r, s.requests[i]? = some r → Flow P r)
    (hok : registersAlone P s a) (hs : step P s a = some s') : Owned P s' := by
  cases step_moved hs with
  | quiet _ _ _ _ hget =>
    exact
      { h with
        entry := fun k i hk => h.entry k i ((hget k).symm.trans hk)
        inserted := fun i r hr hins => (hget _).trans (h.inserted i r hr hins) }
  | received ctx => exact h.receive ctx
  | moved _ i r r' hr hm =>
    have hframed := hm.framed
    refine h.set hr hframed.pendingInserted ?_ (hm.registeredAt_back (hflow i r hr))
    intro hins
    -- A request gets its stream id before it is registered.
    rcases hframed.streamId with hpc | hsid
    · have hat := ((hflow i r hr).inserted hins).2
      rw [hpc] at hat
      cases hat
    · exact hsid
  | refused i choice r hr hpc hfailed =>
    refine h.set hr rfl (fun _ => rfl) (fun hk => ?_)
    exact absurd hfailed (not_refused_of_registersAlone hok hk hr hpc)
  | inserted i r pending hr hpc hset => exact h.insert (hflow i r hr) hr hpc hset
  | added i r hr hpc =>
    refine { h.set hr (by rfl) (fun _ => by rfl) (fun _ _ _ => ?_) with }
    rw [hpc]
    rfl
  | popped i r hr hpc => exact h.pop (hflow i r hr) hr hpc
  | removed i r hr hpc =>
    refine { h.set hr (by rfl) (fun _ => by rfl) (fun _ _ hat => ?_) with }
    have hnot := registeredAt_after_removing (P := P) hpc
    exact absurd (hnot.symm.trans hat) Bool.false_ne_true
  | registered i m callable r hr =>
    exact { h.set hr (by rfl) (fun _ => by rfl) (fun _ _ => by exact id) with }
  | arrived | called => exact { h with }
  | delivered d answer x _ _ hm =>
    cases hm with
    | entered i r _ hr | left i r _ _ hr | erased i r _ _ _ _ hr =>
      exact { h.set hr (by rfl) (fun _ => by rfl) (fun _ _ => by exact id) with }
    | _ => exact { h with }
  | sent k fails x r _ _ hr hm =>
    cases hm with
    | refused => exact { h with }
    | _ => exact { h.set hr (by rfl) (fun _ => by rfl) (fun _ _ => by exact id) with }

theorem owned_of_reachable (hs : (system P).ReachableIf (registersAlone P) s) : Owned P s := by
  refine hs.invariant (I := Owned P) (.init P) ?_
  intro s a s' hreach ih hok hstep
  exact ih.step (fun i r hr => flow_of_reachable hreach hr) hok hstep

end ServiceLib.Source
