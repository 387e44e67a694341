import ServiceLib.Store.JoinCover

namespace ServiceLib.Join

/-!
# Join storage — before `start` and after `stop`

Nothing happens before `start`, and only `stop` cancels the coroutines.
-/

variable {K V : Type} [DecidableEq K] {s s' : State K V}

/-- There are no items before `start`, and the coroutines are cancelled by `stop` only. -/
structure RunInv (s : State K V) : Prop where
  created : s.lifeState = .created → s.armings = [] ∧
    ∀ (c : CallId) j, s.calls[c]? = some j → j.pc.active = false
  cancelled : s.expiryCancelled → s.lifeState.closed

/-- A running storage has not cancelled its coroutines. -/
theorem RunInv.not_cancelled (h : RunInv s) (hrun : s.lifeState = .running) :
    s.expiryCancelled = false := by
  by_contra hc
  have hclosed := h.cancelled (by simpa using hc)
  rw [hrun] at hclosed
  cases hclosed

/-- A step of `joinValue`. -/
theorem RunInv.join {c : CallId} {o : Outcome V} (hi : Inv s) (h : RunInv s)
    (hs : s.joinStep c o = some s') : RunInv s' := by
  obtain ⟨j, hj, j', hcalls, -, hcancel, hmove⟩ := hi.joinMoved hs
  obtain ⟨j₀, hj₀, he⟩ := hi.joinEffect hs
  obtain ⟨j₁, hcalls₁, -, -, -, -, hops⟩ := he.call
  refine ⟨fun hc => ?_, ?_⟩
  · rw [hops.life] at hc
    obtain ⟨hempty, hinactive⟩ := h.created hc
    refine ⟨?_, fun d jd hd => ?_⟩
    · cases hmove with
      | idle _ _ _ harm _ | fail _ _ _ _ _ harm _ => exact harm.trans hempty
      | create deadline hpc _ _ _ _ _ =>
        have := hinactive c j hj
        rw [hpc] at this
        cases this
      | mark i a _ ha | renew i a _ ha | reset i a _ ha | subscribe i _ a _ _ ha
      | inline i _ a ha | spawn i _ a _ ha | arm i _ a ha | recheck i _ a ha
      | schedule i _ a ha | restore i _ _ a ha =>
        simp [hempty] at ha
    · rw [hcalls₁] at hd
      rcases getElem?_set_cases hd with ⟨rfl, rfl⟩ | ⟨-, hd⟩
      · by_contra hact
        rcases hops.admitted (by simpa using hact) with hact | hrun
        · simp [hinactive d j₀ hj₀] at hact
        · simp [hc] at hrun
      · exact hinactive d jd hd
  · rw [hcancel, hops.life]
    exact h.cancelled

/-- A step of another thread. -/
theorem RunInv.other (h : RunInv s) (hm : OtherMove s s') : RunInv s' := by
  refine ⟨fun hc => ?_, fun hcancelled => ?_⟩
  · have hcreated : s.lifeState = .created := by
      rcases hm.life with hlife | hlife | hclosed
      · exact hlife.symm.trans hc
      · exact hlife
      · rw [hc] at hclosed
        cases hclosed
    obtain ⟨hnil, hinactive⟩ := h.created hcreated
    refine ⟨List.length_eq_zero_iff.mp (by rw [hm.length, hnil]; rfl), fun c j hj => ?_⟩
    rcases getElem?_of_grown hm.calls hj with hj | hentered
    · exact hinactive c j hj
    · rw [hentered]
      rfl
  · rcases hm.cancelled with hsame | ⟨-, hclosed, -⟩
    · exact hm.closed (h.cancelled (hsame.symm.trans hcancelled))
    · exact hclosed

/-- Every step keeps it. -/
theorem step_runInv {a : Action K V} (hi : Inv s) (h : RunInv s) (hs : step s a = some s') :
    RunInv s' := by
  cases a with
  | join c o => exact h.join hi hs
  | _ => exact h.other (step_other hi hs)

end ServiceLib.Join
