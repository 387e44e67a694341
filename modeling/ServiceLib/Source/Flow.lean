import ServiceLib.Source.Steps

namespace ServiceLib.Source

/-!
# Source endpoints — the course of a request

What the program point of a request says about the request, in every kind of endpoint and
whatever the other threads do.
-/

open Request

variable {P : Endpoint} {s : State} {r r' : Request}

/-! ### Program points -/

/-- The program points that the requests of an endpoint visit. -/
def Endpoint.visits (P : Endpoint) : RequestPc → Bool
  | .beginning | .consuming | .ending | .finished => true
  | .registering | .adding | .waiting | .popping | .removing => P.hasResult
  | .subscribing | .checking | .expiring | .draining => !P.kind.guardsPop && P.hasResult
  | .locking | .settling => P.locks
  | .closing => P.kind.isGrpc
  | .clearing => P.kind.guardsPop && P.locks
  | .verifying => P.kind.guardsPop && !P.kind.isGrpc && P.hasResult

/-- The steps of finalization after `lifetimeMutex` is taken. -/
def RequestPc.finalizing : RequestPc → Bool
  | .settling | .popping | .removing | .closing | .clearing | .verifying | .ending => true
  | _ => false

/-- Where a request may have an entry in `pending_`. -/
def Endpoint.registeredAt (P : Endpoint) : RequestPc → Bool
  | .adding | .consuming | .subscribing | .waiting | .checking | .expiring | .draining | .locking
  | .popping => true
  | .settling => P.kind.isGrpc || !P.kind.guardsPop
  | _ => false


/-! ### What holds there -/

/-- What the program point of a request says about it. -/
structure Flow (P : Endpoint) (r : Request) : Prop where
  visits : P.visits r.pc
  exposed : r.pc = .beginning ∨ r.pc = .registering ∨ r.pc = .adding ∨ r.begun = false →
    r.exposed = false
  inserted : r.pendingInserted → P.hasResult ∧ P.registeredAt r.pc
  popping : P.kind.guardsPop → r.pc = .popping → r.pendingInserted
  writer : r.escaped = false → r.result.writer = (P.locks && r.pc.finalizing)
  unbegun : r.pc = .beginning → r.begun = false
  begun : r.begun ∨ r.pc = .beginning ∨ r.pc = .finished
  endings : r.endings = if r.pc = .ending ∨ r.pc = .finished ∧ r.begun = true then 1 else 0
  closed : P.kind.isGrpc → r.begun →
    r.pc = .clearing ∨ r.pc = .ending ∨ r.pc = .finished → r.sender.active = false

theorem Flow.begun_of_pc (h : Flow P r) (h₁ : r.pc ≠ .beginning) (h₂ : r.pc ≠ .finished) :
    r.begun := by
  rcases h.begun with hb | hb | hb
  · exact hb
  · exact absurd hb h₁
  · exact absurd hb h₂

/-- A new request. -/
theorem Flow.new (ctx : Context) : Flow P (.new ctx) where
  visits := rfl
  exposed _ := rfl
  inserted h := by cases h
  popping _ h := by cases h
  writer _ := by simp [Request.new, PendingResult.new, RequestPc.finalizing]
  unbegun _ := rfl
  begun := .inr (.inl rfl)
  endings := rfl
  closed _ h := by cases h

/-- Of the result only the writer matters. -/
theorem Flow.setResult (h : Flow P r) {result : PendingResult}
    (hwriter : result.writer = r.result.writer) : Flow P { r with result } :=
  { h with writer := fun hescaped => hwriter.trans (h.writer hescaped) }

/-- Between `adding` and finalization. -/
def RequestPc.underway : RequestPc → Bool
  | .adding | .consuming | .subscribing | .waiting | .checking | .expiring | .draining
  | .locking => true
  | _ => false

/-- From one program point before finalization to another. -/
theorem Flow.underway (h : Flow P r) (hpc : r.pc.underway) (hpc' : r'.pc.underway)
    (hvisits : P.visits r'.pc) (hadding : r'.pc ≠ .adding)
    (hinserted : r'.pendingInserted = r.pendingInserted)
    (hwriter : r'.result.writer = r.result.writer) (hescaped : r'.escaped = r.escaped)
    (hbegun : r'.begun = r.begun) (hendings : r'.endings = r.endings) : Flow P r' := by
  have hfinal : ∀ pc : RequestPc, pc.underway → pc.finalizing = false ∧ pc ≠ .ending ∧
      pc ≠ .finished ∧ pc ≠ .beginning ∧ pc ≠ .registering ∧ pc ≠ .popping ∧ pc ≠ .clearing ∧
      P.registeredAt pc := by
    intro pc h
    cases pc <;> first | exact ⟨rfl, nofun, nofun, nofun, nofun, nofun, nofun, rfl⟩ | cases h
  have hnew := hfinal _ hpc'
  have hold := hfinal _ hpc
  obtain ⟨-, -, hins, -, hw, -, hb, he, -⟩ := h
  constructor <;> grind

/-! ### The order of finalization -/

/-- The steps of finalization that lead on to another one. -/
def RequestPc.finalStep : RequestPc → Bool
  | .locking | .settling | .popping | .removing | .closing | .clearing | .verifying => true
  | _ => false

theorem nextFinal_finalizing (P : Endpoint) (r : Request) : (r.nextFinal P).finalizing := by
  obtain ⟨kind, _⟩ := P
  cases kind <;> cases hr : r.pc <;> simp only [nextFinal, hr] <;>
    first | rfl | (split <;> rfl)

theorem nextFinal_visits (hvisits : P.visits r.pc) (hins : r.pendingInserted → P.hasResult) :
    P.visits (r.nextFinal P) := by
  obtain ⟨kind, _⟩ := P
  cases kind <;> cases hr : r.pc <;> simp only [nextFinal, hr] <;> rw [hr] at hvisits <;>
    first
    | exact hvisits
    | rfl
    | (split <;> first | assumption | exact hins (by assumption))

theorem nextFinal_registeredAt (hpc : r.pc.finalStep) (hpop : r.pc ≠ .popping)
    (hins : r.pendingInserted) (hres : P.hasResult)
    (hat : P.registeredAt r.pc) : P.registeredAt (r.nextFinal P) := by
  obtain ⟨kind, _⟩ := P
  cases kind <;> cases hr : r.pc <;> simp only [nextFinal, hr] <;> rw [hr] at hat hpc <;>
    first
    | rfl
    | (cases hat; done)
    | (cases hpc; done)
    | exact absurd hr hpop
    | (rw [if_pos hins]; rfl)
    | (rw [if_pos hres]; rfl)

theorem inserted_of_nextFinal_popping (hk : P.kind.guardsPop)
    (h : r.nextFinal P = .popping) : r.pendingInserted := by
  obtain ⟨kind, _⟩ := P
  cases kind <;> cases hr : r.pc <;> simp only [nextFinal, hr] at h <;>
    first | cases h | (cases hk; done) | (split at h; assumption; cases h)

theorem closed_of_nextFinal (hk : P.kind.isGrpc) (hpc : r.pc.finalStep)
    (hvisits : P.visits r.pc) (h : r.nextFinal P = .clearing ∨ r.nextFinal P = .ending) :
    r.pc = .closing ∨ r.pc = .clearing := by
  obtain ⟨kind, _⟩ := P
  cases kind <;> cases hr : r.pc <;> simp only [nextFinal, hr] at h <;>
    rw [hr] at hpc hvisits <;>
    first
    | (cases hk; done)
    | (cases hpc; done)
    | (cases hvisits; done)
    | exact .inl rfl
    | exact .inr rfl
    | (rcases h with h | h <;> cases h)
    | (split at h <;> rcases h with h | h <;> cases h)

/-- The next step of finalization, after whatever the step itself does. -/
theorem Flow.next (h : Flow P r) (hstep : r.pc.finalStep) (hpc : r'.pc = r.nextFinal P)
    (hinserted : r'.pendingInserted → r.pc ≠ .popping ∧ r.pendingInserted)
    (hsame : r'.pc = .popping → r'.pendingInserted = r.pendingInserted)
    (hwriter : r'.escaped = false → r'.result.writer = P.locks) (hbegun : r'.begun = r.begun)
    (hendings : r'.endings = (r.goto (r.nextFinal P)).endings)
    (hactive : r'.sender.active → r.pc ≠ .closing ∧ r.sender.active) : Flow P r' := by
  have hfinalizing := nextFinal_finalizing P r
  have hvisits := nextFinal_visits h.visits (fun hins => (h.inserted hins).1)
  have hat := @nextFinal_registeredAt P r hstep
  have hpop := @inserted_of_nextFinal_popping P r
  have hcl := fun hk => closed_of_nextFinal (r := r) hk hstep h.visits
  rw [← hpc] at hfinalizing hvisits hat hpop hcl
  have hb : r.begun := by
    refine h.begun_of_pc ?_ ?_ <;> intro hr <;> rw [hr] at hstep <;> cases hstep
  have hzero : r.endings = 0 := by
    rw [h.endings, if_neg]
    rintro (hr | ⟨hr, -⟩) <;> rw [hr] at hstep <;> cases hstep
  have hnot : ∀ pc : RequestPc, pc.finalizing = false → r'.pc ≠ pc := by
    rintro pc hf rfl
    exact absurd (hfinalizing.symm.trans hf) (by decide)
  obtain ⟨-, -, hins, -, -, -, -, -, hclosed⟩ := h
  constructor <;> grind [goto, RequestPc.finalizing]

theorem Endpoint.locks_of_hasResult (h : P.hasResult) : P.locks := by
  obtain ⟨kind, _⟩ := P
  cases kind with
  | http => exact h
  | _ => rfl

theorem Endpoint.hasResult_of_locks_false (h : P.locks = false) :
    P.hasResult = false ∧ P.kind.isGrpc = false := by
  obtain ⟨kind, _⟩ := P
  cases kind with
  | http => exact ⟨h, rfl⟩
  | _ => cases h

/-- Leaving the `try` block. -/
theorem Flow.finalize (h : Flow P r) (hpc : r.pc = .registering ∨ r.pc = .consuming) :
    Flow P (r.finalize P) := by
  obtain ⟨-, -, hins, -, hw, -, hb, he, -⟩ := h
  have hfin : r.pc.finalizing = false := by rcases hpc with hpc | hpc <;> rw [hpc] <;> rfl
  cases hl : P.locks with
  | true =>
    have heq : r.finalize P = { r with pc := .locking } := by
      simp [Request.finalize, goto, hl]
    rw [heq]
    constructor <;> grind [Endpoint.visits, Endpoint.registeredAt, RequestPc.finalizing]
  | false =>
    obtain ⟨hres, hgrpc⟩ := Endpoint.hasResult_of_locks_false hl
    have heq : r.finalize P = { r with pc := .ending, endings := r.endings + 1 } := by
      simp [Request.finalize, goto, hl]
    rw [heq]
    constructor <;> grind [Endpoint.visits]

/-- `beginRequest`. -/
theorem Flow.begin (h : Flow P r) (hpc : r.pc = .beginning) (b : Option (Context × StreamId)) :
    Flow P (r.begin P b) := by
  obtain ⟨-, hx, hins, -, hw, hu, -, he, -⟩ := h
  rw [hpc] at hins hw
  cases b with
  | none =>
    constructor <;> grind [begin, Endpoint.visits, Endpoint.registeredAt,
      RequestPc.finalizing]
  | some b =>
    cases hres : P.hasResult <;> constructor <;> grind [begin, Endpoint.visits,
      Endpoint.registeredAt, RequestPc.finalizing]

/-! ### Runs -/

theorem RequestPc.underway_of_waits {pc : RequestPc} (h : pc.waits) :
    pc.underway ∧ pc ≠ .adding := by
  cases pc <;> cases h <;> exact ⟨rfl, RequestPc.noConfusion⟩

theorem Flow.hasResult_of_waits (h : Flow P r) (hpc : r.pc.waits) : P.hasResult := by
  have hvisits := h.visits
  cases hr : r.pc <;> rw [hr] at hpc hvisits <;>
    first | exact hvisits | exact (Bool.and_eq_true_iff.mp hvisits).2 | cases hpc

/-- The end of the wait for the result. -/
theorem Flow.locking (h : Flow P r) (hpc : r.pc.waits) (hpc' : r'.pc = .locking)
    (hinserted : r'.pendingInserted = r.pendingInserted)
    (hwriter : r'.result.writer = r.result.writer) (hescaped : r'.escaped = r.escaped)
    (hbegun : r'.begun = r.begun) (hendings : r'.endings = r.endings) : Flow P r' := by
  refine h.underway (RequestPc.underway_of_waits hpc).1 (by rw [hpc']; rfl) ?_ (by rw [hpc']; nofun)
    hinserted hwriter hescaped hbegun hendings
  rw [hpc']
  exact Endpoint.locks_of_hasResult (h.hasResult_of_waits hpc)

/-- **Step lemma.**  Whatever happens to a request, it stays on course. -/
theorem Flow.move (h : Flow P r) (hm : Move P r r') : Flow P r' := by
  have hwriter : r.pc.finalStep → r.pc ≠ .locking → r.escaped = false →
      r.result.writer = P.locks := by
    intro hpc hne hescaped
    rw [h.writer hescaped]
    cases hr : r.pc <;> rw [hr] at hpc hne <;>
      first | exact Bool.and_true _ | exact absurd rfl hne | cases hpc
  -- Most steps of finalization only go on to the next one.
  have hnext : ∀ {r'' : Request}, r.pc.finalStep → r.pc ≠ .locking →
      r.pc ≠ .popping ∧ r.pc ≠ .closing → r''.pc = r.nextFinal P →
      r''.pendingInserted = r.pendingInserted → r''.result.writer = r.result.writer →
      r''.escaped = r.escaped → r''.begun = r.begun →
      r''.endings = (r.goto (r.nextFinal P)).endings → r''.sender.active = r.sender.active →
      Flow P r'' := by
    intro r'' hstep hlocking hpc hpc' hins hw hescaped hb he ha
    exact h.next hstep hpc' (fun h' => ⟨hpc.1, hins ▸ h'⟩) (fun _ => hins)
      (fun hfree => hw.trans (hwriter hstep hlocking (hescaped ▸ hfree))) hb he
      (fun h' => ⟨hpc.2, ha ▸ h'⟩)
  cases hm with
  | own _ hm =>
    cases hm with
    | begun b hpc => exact h.begin hpc b
    | consumeFailed hpc =>
      have h' : Flow P { r with error := some .handler } := { h with }
      exact h'.finalize (.inr hpc)
    | consumedAgain => exact h
    | consumed hpc hres =>
      refine h.underway (by rw [hpc]; rfl) ?_ ?_ ?_ rfl rfl rfl rfl rfl
      · cases P.kind.guardsPop <;> rfl
      · cases hk : P.kind.guardsPop <;> simp [Endpoint.visits, hk, hres]
      · cases P.kind.guardsPop <;> nofun
    | consumedLast hpc => exact h.finalize (.inr hpc)
    | subscribed tokens hpc =>
      have hvisits := h.visits
      rw [hpc] at hvisits
      exact h.underway (by rw [hpc]; rfl) rfl (Bool.and_eq_true_iff.mp hvisits).2 nofun rfl rfl rfl
        rfl rfl
    | waited pc hpc hpc' hk =>
      refine h.underway ?_ ?_ ?_ ?_ rfl rfl rfl rfl rfl
      · exact (RequestPc.underway_of_waits hpc).1
      · exact (RequestPc.underway_of_waits hpc').1
      · have hres := h.hasResult_of_waits hpc
        cases pc <;> first | exact hres | (simp [Endpoint.visits, hk, hres]; done) | cases hpc'
      · exact (RequestPc.underway_of_waits hpc').2
    | waitEnded hpc | waitFailed hpc => exact h.locking hpc rfl rfl rfl rfl rfl rfl
    | waitExpired hpc => exact h.locking (by rw [hpc]; rfl) rfl rfl rfl rfl rfl rfl
    | locked hpc hreaders hfree =>
      have hlocks : P.locks := by
        have hvisits := h.visits
        rw [hpc] at hvisits
        exact hvisits
      exact h.next (by rw [hpc]; rfl) rfl (fun hins => ⟨by simp [hpc], hins⟩) (fun _ => rfl)
        (fun _ => hlocks.symm) rfl rfl (fun hactive => ⟨by simp [hpc], hactive⟩)
    | settled hpc | cleared hpc | verified hpc =>
      exact hnext (by rw [hpc]; rfl) (by simp [hpc]) (by simp [hpc]) rfl rfl rfl rfl rfl rfl rfl
    | closed hpc =>
      exact h.next (by rw [hpc]; rfl) rfl (fun hins => ⟨by simp [hpc], hins⟩) (fun _ => rfl)
        (hwriter (by rw [hpc]; rfl) (by simp [hpc])) rfl rfl nofun
    | ended error hpc =>
      obtain ⟨-, hx, hins, -, hw, -, hb, he, hcl⟩ := h
      rw [hpc] at hins
      constructor <;> grind [Endpoint.visits, Endpoint.registeredAt, RequestPc.finalizing]
    | escaped => exact { h with writer := by rintro ⟨⟩ }
    | woken tokens subscribed => exact { h.setResult r.result.tryWake_writer with }
    | signalled => exact h.setResult (PendingResult.tryWake_writer _)
    | completed | sent => exact { h with }
  | refused hpc =>
    have h' : Flow P { r with error := some .registration } := { h with }
    exact h'.finalize (.inl hpc)
  | inserted hpc =>
    obtain ⟨hv, hx, -, -, hw, -, hb, he, -⟩ := h
    rw [hpc] at hw
    constructor <;> grind [Endpoint.visits, Endpoint.registeredAt, RequestPc.finalizing]
  | added hpc =>
    exact h.underway (by rw [hpc]; rfl) rfl rfl nofun rfl rfl rfl rfl rfl
  | popped hpc =>
    exact h.next (by rw [hpc]; rfl) rfl nofun
      (fun hr => by simp [goto, nextFinal, hpc] at hr)
      (hwriter (by rw [hpc]; rfl) (by simp [hpc])) rfl rfl
      (fun hactive => ⟨by simp [hpc], hactive⟩)
  | removed hpc =>
    exact hnext (by rw [hpc]; rfl) (by simp [hpc]) (by simp [hpc]) rfl rfl rfl rfl rfl rfl rfl
  | registered m registration =>
    exact h.setResult (r.result.register_writer m registration)
  | wrote sender hactive =>
    exact { h with closed := fun hk hb hpc => hactive.trans (h.closed hk hb hpc) }
  | won => exact h.setResult r.result.tryWake_writer
  | entered | left | erased | woke => exact { h with }

/-- **Run lemma.**  Every request is on course. -/
theorem flow_of_reachable {ok : State → Action → Prop} (hs : (system P).ReachableIf ok s)
    {i : RequestId} (hr : s.requests[i]? = some r) : Flow P r :=
  forall_requests Flow.new (fun _ _ _ _ _ _ _ _ h hm _ => h.move hm) hs hr

end ServiceLib.Source
