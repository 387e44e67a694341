import ServiceLib.SubStream.Dispatch

namespace ServiceLib.SubStream

/-!
# SubStream calls — the protocol
-/

open List

variable {R E : Type} {s s' : State R E} {c c' : SubStreamCall R E} {n : Nat}

/-- A run of the collector returned `true` or threw, or a `wait` or `close` returned or threw of
    its own accord. -/
def SubStreamCall.Over (c : SubStreamCall R E) : Prop :=
  (∃ r ∈ c.outs, r.final) ∨
    ∃ x ∈ c.threads, x.op.drains ∧ ∃ r, x.pc = .ended r ∧ r ≠ .interrupted

theorem CallInv.not_over (h : CallInv c) {x : Thread R E} (hx : x ∈ c.threads)
    (hpc : x.pc.admitted) : ¬ c.Over := by
  rintro (⟨r, hr, hfinal⟩ | ⟨y, hy, hop, r, hend, hr⟩)
  · simp [h.not_final hx hpc hr] at hfinal
  · have hdrained : y.drained := by
      unfold Thread.drained
      rw [hop, hend]
      cases r <;> first | rfl | exact absurd rfl hr
    simp [(h.drained y hy hdrained).idle x hx] at hpc

/-! ### Where runs of the collector begin -/

theorem SubStreamCall.runStep_invoked {w : World} {t : Nat} {o : Choice E}
    (hs : c.runStep w t o = some c') (hne : c'.invoked ≠ c.invoked) :
    ∃ x ∈ c.threads, x.pc = .polling := by
  obtain ⟨op, pc, d, pc', ht, hm, rfl⟩ := runStep_move hs
  cases hm with
  | call => exact ⟨_, mem_of_getElem? ht, rfl⟩
  | _ => exact absurd rfl hne

theorem State.begin_invoked {m : Nat} {op : Op R} (hs : s.begin m op = some s')
    {v v' : Invocation R E} (hv : s.invocations[n]? = some v) (hv' : s'.invocations[n]? = some v') :
    v'.call.invoked = v.call.invoked := by
  unfold State.begin at hs
  split at hs
  case h_1 => cases hs
  case h_2 u hu =>
    cases hs
    rcases getElem?_set_cases hv' with ⟨rfl, rfl⟩ | ⟨-, hold⟩
    · cases hu.symm.trans hv
      rfl
    · cases hold.symm.trans hv
      rfl

/-- A run of the collector begins where `deliver` was admitted, and nowhere else. -/
theorem step_invoked {a : Action R E} (hs : step s a = some s') {v v' : Invocation R E}
    (hv : s.invocations[n]? = some v) (hv' : s'.invocations[n]? = some v')
    (hne : v'.call.invoked ≠ v.call.invoked) : ∃ x ∈ v.call.threads, x.pc = .polling := by
  have hsame : s'.invocations[n]? = s.invocations[n]? → ∃ x ∈ v.call.threads, x.pc = .polling := by
    intro heq
    rw [hv, hv'] at heq
    cases heq
    exact absurd rfl hne
  cases a with
  | advance | fire | root => cases hs; exact hsame rfl
  | derive =>
    obtain ⟨known, -, rfl⟩ := Option.map_eq_some_iff.mp hs
    exact hsame rfl
  | invoke key parent =>
    have hs : s.invoke key parent = some s' := hs
    unfold State.invoke at hs
    split at hs
    case h_1 => cases hs
    case h_2 =>
      split at hs
      · cases hs; exact hsame rfl
      · cases hs
        exact hsame (getElem?_append_left (lt_of_getElem? hv))
  | emit key via value =>
    have hs : s.emit key via value = some s' := hs
    unfold State.emit at hs
    split at hs
    case h_1 => cases hs
    case h_2 =>
      split at hs
      case h_1 => cases hs; exact hsame rfl
      case h_2 => exact absurd (State.begin_invoked hs hv hv') hne
  | cancel m | close m => exact absurd (State.begin_invoked hs hv hv') hne
  | wait m =>
    have hs : s.wait m = some s' := hs
    unfold State.wait at hs
    split at hs
    case h_1 => cases hs
    case h_2 => exact absurd (State.begin_invoked hs hv hv') hne
  | run m t o =>
    have hs : s.run m t o = some s' := hs
    unfold State.run at hs
    split at hs
    case h_1 => cases hs
    case h_2 u hu =>
      obtain ⟨call', hcall', rfl⟩ := Option.map_eq_some_iff.mp hs
      rcases getElem?_set_cases hv' with ⟨rfl, rfl⟩ | ⟨-, hold⟩
      · cases hu.symm.trans hv
        exact SubStreamCall.runStep_invoked hcall' hne
      · exact hsame (hv'.trans (hold.symm.trans rfl))

/-! ### The protocol -/

/-- **The protocol of SubStream calls**, for any nesting and concurrency of calls and any
    interleaving of deliveries, cancellations, deadlines, `wait` and `close`. -/
theorem substream_protocol {s : State R E} (hreach : (system R E).Reachable s) :
    (∀ (n : Nat) (v : Invocation R E), s.invocations[n]? = some v →
      -- Runs of the collector are serialised.
      (∀ (i j : Nat) (x y : Thread R E), v.call.threads[i]? = some x → x.pc = .calling →
        v.call.threads[j]? = some y → y.pc = .calling → i = j) ∧
      -- None goes on or begins after the last one, or after `wait` or `close`.
      (∀ x ∈ v.call.threads, x.pc = .calling → ¬ v.call.Over) ∧
      (∀ a s' v', step s a = some s' → s'.invocations[n]? = some v' →
        v'.call.invoked ≠ v.call.invoked → ¬ v.call.Over) ∧
      -- The event is sent at most once.
      v.call.done ≤ 1 ∧
      -- `wait` returns only if a run returned `true`, and then it does, if the engine lets it:
      (∀ x ∈ v.call.threads, ∀ d r, x.op = .wait d → x.pc = .ended r →
        (r = .returned → .returned true ∈ v.call.outs) ∧
        (.returned true ∈ v.call.outs → r = .returned ∨ r = .interrupted)) ∧
      -- no coroutine goes on for ever, and where none can go on `wait` is over.
      (∀ t o c', v.call.runStep s.world t o = some c' → c'.remaining < v.call.remaining) ∧
      (.returned true ∈ v.call.outs → (∀ t, v.call.runStep s.world t .go = none) →
        ∀ x ∈ v.call.threads, ∀ d, x.op = .wait d →
          x.pc = .ended .returned ∨ x.pc = .ended .interrupted) ∧
      -- The collector is only run with results whose context carries this call.
      (∀ p ∈ v.call.invoked, Carries s.contexts v.key p.2 n)) ∧
    ∀ key via call call', Carries s.contexts key via call → Carries s.contexts key via call' →
      call = call' := by
  have hinv := dispatchInv_of_reachable hreach
  refine ⟨fun n v hv => ?_, fun _ _ _ _ hc hc' => hc.functional hc'⟩
  have h := hinv.calls v (mem_of_getElem? hv)
  refine ⟨fun i j x y hi hx hj hy => ?_, fun x hx hpc => ?_, fun a s' v' hs hv' hne => ?_, ?_,
    fun x hx d r hop hpc => ?_, fun t o c' hs => h.remaining_lt hs, fun hr hquiet x hx d hop => ?_,
    (hinv.sources n v hv).invoked⟩
  · refine h.exclusive hj (Pc.holds_of_admitted ?_) hi (Pc.holds_of_admitted ?_)
    · rw [hy]; rfl
    · rw [hx]; rfl
  · exact h.not_over hx (by rw [hpc]; rfl)
  · obtain ⟨x, hx, hpc⟩ := step_invoked hs hv hv' hne
    exact h.not_over hx (by rw [hpc]; rfl)
  · have hsent := h.sent
    have := Bool.toNat_le v.call.closed
    omega
  · rw [← h.completed]
    exact h.waited x hx d r hop hpc
  · obtain ⟨r, hend⟩ := h.all_ended hr rfl hquiet x hx
    rw [hend]
    rcases (h.waited x hx d r hop hend).2 (h.completed.mpr hr) with rfl | rfl
    · exact .inl rfl
    · exact .inr rfl

/-- A stream is invoked from its own body.  The inner call is cancelled while its collector runs
    and completes; the outer one gets its result later. -/
def nestedCalls : List (Action Nat Empty) :=
  [ [.root {}, .invoke 5 0, .invoke 5 1, .emit 5 2 70, .wait 1, .wait 0],
    replicate 4 (.run 1 0 .go),
    [.cancel 1, .run 1 2 .go, .run 1 2 .go],
    [.run 1 0 (.out (.returned true)), .run 1 0 .go, .run 1 0 .go],
    replicate 4 (.run 1 1 .go),
    .emit 5 1 80 :: replicate 4 (.run 0 1 .go) ].flatten

/-- In that run the inner `wait` has returned, and each result is with the call of its context. -/
theorem substream_protocol_nested : ∃ s : State Nat Empty, (system Nat Empty).Reachable s ∧
    s.invocations.map (·.call.invoked) = [[(80, 1)], [(70, 2)]] ∧
    s.invocations.map (fun v => v.call.threads.map (·.pc)) =
      [[.waiting, .calling], [.ended .returned, .ended .returned, .ended .returned]] ∧
    Carries s.contexts 5 1 0 ∧ Carries s.contexts 5 2 1 := by
  obtain ⟨s, hreach, hinvoked, hkeys, hpcs⟩ :=
    (system Nat Empty).exists_reachable_of_run nestedCalls
    (fun s => s.invocations.map (·.call.invoked) = [[(80, 1)], [(70, 2)]] ∧
      s.invocations.map (·.key) = [5, 5] ∧
      s.invocations.map (fun v => v.call.threads.map (·.pc)) =
        [[.waiting, .calling], [.ended .returned, .ended .returned, .ended .returned]])
    (by decide +kernel)
  have hcarries : ∀ (n : Nat) (p : Nat × Nat),
      (s.invocations.map (·.call.invoked))[n]? = some [p] →
      (s.invocations.map (·.key))[n]? = some 5 → Carries s.contexts 5 p.2 n := by
    intro n p hn hkey
    rw [getElem?_map, Option.map_eq_some_iff] at hn hkey
    obtain ⟨v, hv, hvp⟩ := hn
    obtain ⟨u, hu, hkey⟩ := hkey
    cases hu.symm.trans hv
    obtain ⟨-, -, -, -, -, -, -, hsources⟩ := (substream_protocol hreach).1 n v hv
    have hc := hsources p (by rw [hvp]; exact mem_cons_self)
    rwa [hkey] at hc
  refine ⟨s, hreach, hinvoked, hpcs, hcarries 0 (80, 1) ?_ ?_, hcarries 1 (70, 2) ?_ ?_⟩
  · rw [hinvoked]; rfl
  · rw [hkeys]; rfl
  · rw [hinvoked]; rfl
  · rw [hkeys]; rfl

end ServiceLib.SubStream
