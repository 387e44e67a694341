import ServiceLib.Cron.Dispatch
import ServiceLib.Lib.ThreadList

namespace ServiceLib.Cron

/-!
# Cron endpoint — overlap

What holds of an endpoint in every interleaving of firings, runs and calls of `stop`, and why the
steps of `dispatch` keep it.
-/

open List Option Endpoint

/-! ### What program counters stand for -/

namespace DispatchPc

def holds : DispatchPc → Bool
  | .checking _ | .abandoning _ | .counting _ => true
  | _ => false

/-- Has taken `running`, if it needs it, and may still find the endpoint stopping. -/
def tentative : DispatchPc → Bool
  | .locking _ | .checking _ | .abandoning _ => true
  | _ => false

/-- Found the endpoint open under the mutex, and has not given `running` back. -/
def committed : DispatchPc → Bool
  | .counting _ | .spawning _ | .failing _ => true
  | _ => false

/-- Counts in `active`. -/
def counted : DispatchPc → Bool
  | .spawning _ | .failing _ | .uncounting => true
  | _ => false

/-- Whether a firing that would have to hold `running` does. -/
def owns : DispatchPc → Bool
  | .locking owns | .checking owns | .abandoning owns | .counting owns | .spawning owns
  | .failing owns => owns
  | _ => true

/-- A firing that is over holds nothing. -/
theorem not_tentative_of_over {pc : DispatchPc} (h : pc.over) : pc.tentative = false ∧ pc.owns := by
  cases pc <;> first | exact ⟨rfl, rfl⟩ | cases h

end DispatchPc

namespace Run

/-- Has not given `running` back. -/
def committed (r : Run) : Bool :=
  match r.pc with
  | .spawned | .output | .clearing => true
  | _ => false

/-- Counts in `active`. -/
def counted (r : Run) : Bool :=
  match r.pc with
  | .spawned | .output | .clearing | .uncounting => true
  | _ => false

/-- Its output is executing. -/
def executing (r : Run) : Bool := r.pc == .output

theorem counted_of_committed {r : Run} (h : r.committed) : r.counted := by
  unfold committed at h
  unfold counted
  split at h <;> simp_all

theorem committed_of_executing {r : Run} (h : r.executing) : r.committed := by
  rw [executing, beq_iff_eq] at h
  rw [committed, h]

end Run

namespace StopPc

/-- Has stored `stopping` and is not over. -/
def closing : StopPc → Bool
  | .storing | .returned _ | .threw => false
  | _ => true

/-- Has seen the count at zero, and is not over. -/
def drained : StopPc → Bool
  | .joining completed => completed
  | .cancelling | .clearing => true
  | _ => false

theorem closing_of_drained {pc : StopPc} (h : pc.drained) : pc.closing := by
  cases pc <;> first | rfl | cases h

theorem not_closing_of_over {pc : StopPc} (h : pc.over) : pc.closing = false := by
  cases pc <;> first | rfl | cases h

end StopPc

namespace Endpoint

def tentative (s : Endpoint) : Nat := s.firings.countP DispatchPc.tentative

def committed (s : Endpoint) : Nat :=
  s.firings.countP DispatchPc.committed + s.runs.countP Run.committed

/-- The dispatched runs that are not over. -/
def unfinished (s : Endpoint) : Nat :=
  s.firings.countP DispatchPc.counted + s.runs.countP Run.counted

/-- The runs whose output is executing. -/
def executing (s : Endpoint) : Nat := s.runs.countP Run.executing

end Endpoint

/-! ### The invariant -/

/-- Who holds `running` under `kSkip`, for the numbers of tentative and committed owners. -/
structure Exclusive (tentative committed : Nat) (running stopping : Bool) : Prop where
  one : committed ≤ 1
  alone : committed = 1 → running ∧ tentative = 0
  open_ : stopping = false →
    tentative + committed ≤ 1 ∧ (tentative + committed = 1 → running)

/-- The mutex, the count and the flag, and that nothing is counted any more once a `stop` has
    seen the count at zero. -/
structure Inv (s : Endpoint) : Prop where
  mutex : ∀ (d : Nat) (pc : DispatchPc), s.firings[d]? = some pc → pc.holds → s.mu = some d
  count : s.active = s.unfinished
  abandons : ∀ owns, DispatchPc.abandoning owns ∈ s.firings → s.stopping
  closes : ∀ pc ∈ s.stops, pc.closing → s.stopping
  /-- The endpoint is closed and nobody is about to be counted. -/
  idle : (s.configured = false ∨ ∃ pc ∈ s.stops, pc.drained) →
    s.stopping ∧ s.active = 0 ∧ ∀ owns, DispatchPc.counting owns ∉ s.firings
  owners : s.overlapPolicy = .skip →
    (∀ pc ∈ s.firings, pc.owns) ∧ ∀ r ∈ s.runs, r.committed → r.owns
  exclusive : s.overlapPolicy = .skip →
    Exclusive s.tentative s.committed s.running s.stopping

theorem inv_init : Inv init where
  mutex := by simp [init]
  count := rfl
  abandons := by simp [init]
  closes := by simp [init]
  idle := by simp [init]
  owners := by simp [init]
  exclusive _ := ⟨by decide, by decide, by decide⟩

variable {s : Endpoint} {d : Nat}

/-- A firing enters. -/
theorem Inv.fire (h : Inv s) : Inv { s with firings := s.firings ++ [.entered] } where
  mutex := forall_getElem?_concat h.mutex (by rintro ⟨⟩)
  count := by
    have hcount := h.count
    simp only [unfinished, countP_append] at hcount ⊢
    simpa [DispatchPc.counted] using hcount
  abandons := by simpa using h.abandons
  closes := h.closes
  idle := by simpa using h.idle
  owners := by simpa [or_imp, forall_and, DispatchPc.owns] using h.owners
  exclusive := by
    intro hskip
    have hex := h.exclusive hskip
    simp only [tentative, committed, countP_append] at hex ⊢
    simpa [DispatchPc.tentative, DispatchPc.committed] using hex

/-! ### Handing the flag on -/

namespace Exclusive

variable {t c : Nat} {running stopping : Bool}

theorem claim (h : Exclusive t c false stopping) : Exclusive (t + 1) c true stopping := by
  have hzero : c = 0 := by
    have hone := h.one
    have hnot : c ≠ 1 := fun hc => Bool.false_ne_true (h.alone hc).1
    omega
  refine ⟨h.one, fun hc => by omega, fun hstop => ?_⟩
  obtain ⟨hle, hrun⟩ := h.open_ hstop
  have hnone : t + c ≠ 1 := fun hsum => Bool.false_ne_true (hrun hsum)
  exact ⟨by omega, fun _ => rfl⟩

theorem commit (h : Exclusive (t + 1) c running false) : Exclusive t (c + 1) running false := by
  obtain ⟨hle, hrun⟩ := h.open_ rfl
  refine ⟨by omega, fun _ => ⟨hrun (by omega), by omega⟩, fun _ => ⟨by omega, fun _ => ?_⟩⟩
  exact hrun (by omega)

theorem abandon (h : Exclusive (t + 1) c running true) : Exclusive t c false true := by
  have hone := h.one
  have hnot : c ≠ 1 := fun hc => by
    have htentative := (h.alone hc).2
    omega
  exact ⟨h.one, fun hc => absurd hc hnot, fun hstop => by cases hstop⟩

theorem giveBack (h : Exclusive t (c + 1) running stopping) : Exclusive t c false stopping := by
  have hone := h.one
  have hzero : c = 0 := by omega
  subst hzero
  have htentative := (h.alone rfl).2
  exact ⟨by omega, fun hc => by omega, fun _ => ⟨by omega, fun hsum => by omega⟩⟩

end Exclusive

/-! ### Steps -/

section

variable (h : Inv s) {pc' : DispatchPc} {running : Bool} {active : Nat} {mu : Option Nat}
  {runs : List Run}
  (hcount : active = (s.firings.set d pc').countP DispatchPc.counted + runs.countP Run.counted)
  (howners : s.overlapPolicy = .skip → pc'.owns ∧ ∀ r ∈ runs, r.committed → r.owns)
  (hexclusive : s.overlapPolicy = .skip →
    Exclusive ((s.firings.set d pc').countP DispatchPc.tentative)
      ((s.firings.set d pc').countP DispatchPc.committed + runs.countP Run.committed)
      running s.stopping)
include h hcount howners hexclusive

/-- Firing `d` moves. -/
theorem Inv.dispatch (hothers : ∀ j, j ≠ d → s.mu = some j → mu = some j)
    (hholds : pc'.holds → mu = some d)
    (hidle : s.stopping → s.active = 0 → (∀ owns, DispatchPc.counting owns ∉ s.firings) →
      active = 0 ∧ ∀ owns, pc' ≠ .counting owns)
    (habandons : ∀ owns, pc' = .abandoning owns → s.stopping) :
    Inv { s with firings := s.firings.set d pc', running, active, mu, runs } where
  mutex := by
    intro j pc hpc hin
    rcases getElem?_set_cases hpc with ⟨rfl, rfl⟩ | ⟨hne, hpc⟩
    · exact hholds hin
    · exact hothers j hne (h.mutex j pc hpc hin)
  count := hcount
  abandons := by
    intro owns hmem
    rcases mem_or_eq_of_mem_set hmem with hmem | heq
    · exact h.abandons owns hmem
    · exact habandons owns heq.symm
  closes := h.closes
  idle := by
    intro hcond
    obtain ⟨hstop, hactive, hnone⟩ := h.idle hcond
    obtain ⟨hactive', hpc'⟩ := hidle hstop hactive hnone
    refine ⟨hstop, hactive', fun owns hmem => ?_⟩
    rcases mem_or_eq_of_mem_set hmem with hmem | heq
    · exact hnone owns hmem
    · exact hpc' owns heq.symm
  owners := by
    intro hskip
    exact ⟨forall_mem_set (h.owners hskip).1 (howners hskip).1, (howners hskip).2⟩
  exclusive := hexclusive

/-- The same for a firing that does not hold the mutex. -/
theorem Inv.dispatchFree (hfree : pc'.holds = false)
    (hothers : ∀ j, j ≠ d → s.mu = some j → mu = some j) (hactive : s.active = 0 → active = 0) :
    Inv { s with firings := s.firings.set d pc', running, active, mu, runs } := by
  refine h.dispatch hcount howners hexclusive hothers (by simp [hfree])
    (fun _ hzero _ => ⟨hactive hzero, ?_⟩) ?_
  · rintro _ rfl
    cases hfree
  · rintro _ rfl
    cases hfree

end

/-- The same when only the program counter and the mutex change: the firing counts as before. -/
theorem Inv.dispatchSame (h : Inv s) {pc pc' : DispatchPc} (hd : s.firings[d]? = some pc)
    {mu : Option Nat} (hothers : ∀ j, j ≠ d → s.mu = some j → mu = some j := by simp)
    (hholds : pc'.holds → mu = some d := by simp [DispatchPc.holds])
    (habandons : ∀ owns, pc' = .abandoning owns → s.stopping := by simp)
    (hcounted : pc'.counted = pc.counted := by rfl)
    (htentative : pc'.tentative = pc.tentative := by rfl)
    (hcommitted : pc'.committed = pc.committed := by rfl)
    (howns : pc.owns → pc'.owns := by simp [DispatchPc.owns])
    (hcounting : ∀ owns, pc' ≠ .counting owns := by simp) :
    Inv { s with firings := s.firings.set d pc', mu } := by
  refine h.dispatch ?_ ?_ ?_ hothers hholds (fun _ hactive _ => ⟨hactive, hcounting⟩) habandons
  · rw [countP_set_same hd hcounted]
    exact h.count
  · intro hskip
    obtain ⟨hpcs, hruns⟩ := h.owners hskip
    exact ⟨howns (hpcs pc (mem_of_getElem? hd)), hruns⟩
  · intro hskip
    rw [countP_set_same hd htentative, countP_set_same hd hcommitted]
    exact h.exclusive hskip

/-- Waking calls of `stop` changes nothing they have seen. -/
theorem Inv.notifyAll (h : Inv s) : Inv s.notifyAll := by
  have hclosing : ∀ pc, (wakeStop pc).closing = pc.closing := by
    intro pc
    cases pc <;> rfl
  have hdrained : ∀ pc, (wakeStop pc).drained = pc.drained := by
    intro pc
    cases pc <;> rfl
  refine ⟨h.mutex, h.count, h.abandons, ?_, ?_, h.owners, h.exclusive⟩
  · intro pc hpc hin
    obtain ⟨pc₀, hpc₀, rfl⟩ := mem_map.mp hpc
    exact h.closes pc₀ hpc₀ (by rw [← hclosing]; exact hin)
  · intro hcond
    refine h.idle (hcond.imp id ?_)
    rintro ⟨pc, hpc, hin⟩
    obtain ⟨pc₀, hpc₀, rfl⟩ := mem_map.mp hpc
    exact ⟨pc₀, hpc₀, by rw [← hdrained]; exact hin⟩

section

variable {owns : Bool} {pc pc' : DispatchPc} (h : Inv s)
include h

theorem Inv.count_of_same (hd : s.firings[d]? = some pc) (hcounted : pc'.counted = pc.counted) :
    s.active = (s.firings.set d pc').countP DispatchPc.counted + s.runs.countP Run.counted := by
  rw [countP_set_same hd hcounted]
  exact h.count

/-- Nobody else holds the mutex that firing `d` gives back. -/
theorem Inv.mine (hd : s.firings[d]? = some pc) (hin : pc.holds) (j : Nat) (hne : j ≠ d)
    (hj : s.mu = some j) : (none : Option Nat) = some j := by
  rw [h.mutex d pc hd hin] at hj
  exact absurd (some.inj hj).symm hne

/-- Under `kAllow` nobody needs the flag. -/
theorem Inv.allow (hd : s.firings[d]? = some .claiming) (hallow : s.overlapPolicy = .allow) :
    Inv { s with firings := s.firings.set d (.locking false) } := by
  have hskip : s.overlapPolicy ≠ .skip := by simp [hallow]
  exact h.dispatchFree (h.count_of_same hd rfl) (fun h' => absurd h' hskip)
    (fun h' => absurd h' hskip) rfl (fun _ _ => id) id

theorem Inv.claim (hd : s.firings[d]? = some .claiming) (hfree : s.running = false) :
    Inv { s with firings := s.firings.set d (.locking true), running := true } := by
  refine h.dispatchFree (h.count_of_same hd rfl) (fun h' => ⟨rfl, (h.owners h').2⟩)
    (fun h' => ?_) rfl (fun _ _ => id) id
  have hex := h.exclusive h'
  rw [hfree] at hex
  rw [countP_set_enter hd rfl rfl,
    countP_set_same (p := DispatchPc.committed) (b := .locking true) hd rfl]
  exact hex.claim

/-- Firing `d` finds the endpoint open, and is committed to run. -/
theorem Inv.check (hd : s.firings[d]? = some (.checking owns)) (hstop : s.stopping = false) :
    Inv { s with firings := s.firings.set d (.counting owns) } := by
  have hmem := mem_of_getElem? hd
  refine h.dispatch (h.count_of_same hd rfl)
    (fun h' => ⟨(h.owners h').1 (.checking owns) hmem, (h.owners h').2⟩) (fun h' => ?_)
    (fun _ _ => id) (fun _ => h.mutex d _ hd rfl) (by simp [hstop]) (by rintro _ ⟨⟩)
  have hex := h.exclusive h'
  rw [hstop, tentative, ← countP_set_leave hd (b := .counting owns) rfl rfl] at hex
  have hcommitted := countP_set_enter hd (p := DispatchPc.committed) (b := .counting owns) rfl rfl
  rw [hstop, hcommitted, Nat.add_right_comm]
  exact hex.commit

/-- Firing `d` found the endpoint stopping, and gives the flag back. -/
theorem Inv.abandon (hd : s.firings[d]? = some (.abandoning owns)) :
    Inv { s with
      firings := s.firings.set d .returned
      running := if owns then false else s.running
      mu := none } := by
  have hmem := mem_of_getElem? hd
  have hstop := h.abandons owns hmem
  refine h.dispatchFree (h.count_of_same hd rfl) (fun h' => ⟨rfl, (h.owners h').2⟩)
    (fun h' => ?_) rfl (h.mine hd rfl) id
  have howns : owns := (h.owners h').1 _ hmem
  have hex := h.exclusive h'
  rw [hstop, tentative, ← countP_set_leave hd (b := .returned) rfl rfl] at hex
  rw [howns, if_pos rfl, hstop, countP_set_same (p := DispatchPc.committed) (b := .returned) hd rfl]
  exact hex.abandon

theorem Inv.countIn (hd : s.firings[d]? = some (.counting owns)) :
    Inv { s with
      firings := s.firings.set d (.spawning owns), active := s.active + 1, mu := none } := by
  have hmem := mem_of_getElem? hd
  refine h.dispatch ?_ (fun h' => ⟨(h.owners h').1 (.counting owns) hmem, (h.owners h').2⟩)
    (fun h' => ?_) (h.mine hd rfl) (by simp [DispatchPc.holds])
    (fun _ _ hnone => absurd hmem (hnone owns)) (by rintro _ ⟨⟩)
  · rw [countP_set_enter hd rfl rfl, h.count, unfinished]
    exact Nat.add_right_comm _ _ _
  · rw [countP_set_same (p := DispatchPc.tentative) (b := .spawning owns) hd rfl,
      countP_set_same (p := DispatchPc.committed) (b := .spawning owns) hd rfl]
    exact h.exclusive h'

/-- The run takes over what the firing held: its part of the count, and the flag. -/
theorem Inv.spawn (hd : s.firings[d]? = some (.spawning owns)) :
    Inv { s with firings := s.firings.set d .returned, runs := s.runs ++ [⟨owns, .spawned⟩] } := by
  have hcounted := countP_set_leave hd (p := DispatchPc.counted) (b := .returned) rfl rfl
  have hcommitted := countP_set_leave hd (p := DispatchPc.committed) (b := .returned) rfl rfl
  have hnew : ∀ p : Run → Bool, p ⟨owns, .spawned⟩ = true →
      [(⟨owns, .spawned⟩ : Run)].countP p = 1 := by
    intro p hp
    rw [countP_singleton, if_pos hp]
  refine h.dispatchFree ?_ (fun h' => ⟨rfl, ?_⟩) (fun h' => ?_) rfl (fun _ _ => id) id
  · rw [h.count, unfinished, countP_append, hnew Run.counted rfl]
    omega
  · exact forall_mem_concat (h.owners h').2
      (fun _ => (h.owners h').1 (.spawning owns) (mem_of_getElem? hd))
  · have hex := h.exclusive h'
    rw [committed, ← hcommitted] at hex
    rw [countP_set_same (p := DispatchPc.tentative) (b := .returned) hd rfl, countP_append,
      hnew Run.committed rfl, ← Nat.add_assoc, Nat.add_right_comm]
    exact hex

/-- A run that could not be spawned: the firing gives the flag back. -/
theorem Inv.fail (hd : s.firings[d]? = some (.failing owns)) :
    Inv { s with
      firings := s.firings.set d .uncounting, running := if owns then false else s.running } := by
  have hcommitted := countP_set_leave hd (p := DispatchPc.committed) (b := .uncounting) rfl rfl
  refine h.dispatchFree (h.count_of_same hd rfl) (fun h' => ⟨rfl, (h.owners h').2⟩)
    (fun h' => ?_) rfl (fun _ _ => id) id
  have howns : owns := (h.owners h').1 _ (mem_of_getElem? hd)
  have hex := h.exclusive h'
  rw [committed, ← hcommitted, Nat.add_right_comm] at hex
  rw [howns, if_pos rfl, countP_set_same (p := DispatchPc.tentative) (b := .uncounting) hd rfl]
  exact hex.giveBack

theorem Inv.uncount (hd : s.firings[d]? = some .uncounting) :
    Inv { s with firings := s.firings.set d .notifying, active := s.active - 1 } := by
  have hcounted := countP_set_leave hd (p := DispatchPc.counted) (b := .notifying) rfl rfl
  refine h.dispatchFree ?_ (fun h' => ⟨rfl, (h.owners h').2⟩) (fun h' => ?_) rfl (fun _ _ => id)
    (fun hzero => by rw [hzero])
  · show s.active - 1 = _ + s.runs.countP Run.counted
    rw [h.count, unfinished]
    omega
  · rw [countP_set_same (p := DispatchPc.tentative) (b := .notifying) hd rfl,
      countP_set_same (p := DispatchPc.committed) (b := .notifying) hd rfl]
    exact h.exclusive h'

end

/-- A step of `dispatch`. -/
theorem Inv.dispatchStep {s' : Endpoint} (h : Inv s) {o : Endpoint.Outcome}
    (hs : s.dispatchStep d o = some s') : Inv s' := by
  unfold Endpoint.dispatchStep setFiring at hs
  cases hd : s.firings[d]? with
  | none => simp [hd] at hs
  | some pc =>
    rw [hd] at hs
    cases pc with
    | entered =>
      dsimp only at hs
      split at hs <;> cases hs <;> exact h.dispatchSame hd
    | claiming =>
      dsimp only at hs
      split at hs
      next hallow =>
        cases hs
        exact h.allow hd hallow
      next =>
        split at hs <;> cases hs
        · exact h.dispatchSame hd
        next hfree => exact h.claim hd (Bool.eq_false_iff.mpr hfree)
    | locking owns =>
      dsimp only at hs
      split at hs <;> cases hs
      rename_i hfree
      refine h.dispatchSame hd (fun j _ hj => ?_) (fun _ => rfl)
      simp [not_not.mp hfree] at hj
    | checking owns =>
      -- `stopping` is read under the mutex.
      cases hs
      by_cases hstop : s.stopping
      · rw [if_pos hstop]
        exact h.dispatchSame hd (fun _ _ => id) (fun _ => h.mutex d _ hd rfl) (fun _ _ => hstop)
      · rw [if_neg hstop]
        exact h.check hd (Bool.eq_false_iff.mpr hstop)
    | abandoning owns =>
      cases hs
      exact h.abandon hd
    | counting owns =>
      cases hs
      exact h.countIn hd
    | spawning owns =>
      dsimp only at hs
      split at hs
      · cases hs
        exact h.dispatchSame hd
      · split at hs <;> cases hs
        exact h.spawn hd
    | failing owns =>
      cases hs
      exact h.fail hd
    | uncounting =>
      dsimp only at hs
      split at hs <;> cases hs
      exact h.uncount hd
    | notifying =>
      cases hs
      exact h.notifyAll.dispatchSame hd
    | returned | threw => cases hs

end ServiceLib.Cron
