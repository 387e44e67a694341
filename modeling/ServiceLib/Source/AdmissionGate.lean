import ServiceLib.Lib.ThreadList
import ServiceLib.Source.Admission

namespace ServiceLib.Admission

/-!
# Request admission — the gate

Why a `stop` that returns has the gate to itself.  Once the gate is closed the word changes
under the mutex only: the lock-free paths of `acquire` and `release` compare it with an open
word first.  So a `stop` that finds its predicate false can park before it changes, and one
that finds it true finds the last releaser past its section of the mutex.
-/

open GateWord State

variable {s s' : State} {pc : LeasePc} {i : Nat}

/-! ### The word -/

/-- The predicate of `stop`: closed, and nobody inside. -/
theorem ready_iff (s : State) : s.ready ↔ isClosed s.word ∧ count s.word = 0 := by
  have hbit : count kClosed = 0 ∧ isClosed kClosed := by decide
  rw [ready, beq_iff_eq]
  constructor
  · intro hw
    rw [hw]
    exact ⟨hbit.2, hbit.1⟩
  · rintro ⟨hclosed, hcount⟩
    apply BitVec.eq_of_toNat_eq
    rw [toNat_eq s.word, toNat_eq kClosed, hclosed, hcount, hbit.1, hbit.2]

/-- The releaser that finds one lease in a closed gate gives the last one back. -/
theorem last_iff (hclosed : isClosed s.word) : s.word = kClosed + 1 ↔ count s.word = 1 := by
  have hone : count (kClosed + 1) = 1 ∧ isClosed (kClosed + 1) := by decide
  constructor
  · intro hw
    rw [hw]
    exact hone.1
  · intro hcount
    apply BitVec.eq_of_toNat_eq
    rw [toNat_eq s.word, toNat_eq (kClosed + 1), hclosed, hcount, hone.1, hone.2]

/-! ### The invariant -/

/-- A releaser that has seen the gate closed. -/
def LeasePc.sawClosed : LeasePc → Bool
  | .releaseLoaded state => isClosed state
  | .locking | .subtracting | .notifying | .unlocking => true
  | _ => false

/-- A `stop` that is about to return normally, or has. -/
def StopPc.succeeds : StopPc → Bool
  | .waiting (.ended true) | .returned => true
  | _ => false

/-- What the call `x` of `stop` may rely on, given its predicate and the leases. -/
structure Awaits (ready : Bool) (leases : List LeasePc) (x : StopCall) : Prop where
  registering : x.pc = .waiting .registering → ready = false
  parked : x.pc = .waiting .parked → ready → .notifying ∈ leases
  succeeds : x.pc.succeeds → ready ∧ ∀ pc ∈ leases, pc.holds = false

/-- What holds of a gate between any two steps. -/
structure GateInv (s : State) : Prop where
  count_eq : count s.word = s.outstanding
  closed_eq : isClosed s.word = s.stops.any (·.pc.closed)
  leaseHolds : ∀ (i : Nat) (pc : LeasePc), s.leases[i]? = some pc → pc.holds →
    s.mu = some (.lease i)
  stopHolds : ∀ (j : Nat) (x : StopCall), s.stops[j]? = some x → x.pc.holds →
    s.mu = some (.stop j)
  sawClosed : ∀ pc ∈ s.leases, pc.sawClosed → isClosed s.word
  awaits : ∀ x ∈ s.stops, Awaits s.ready s.leases x
  room : s.objects * leaseSize ≤ 2 ^ 64

namespace GateInv

section

variable (h : GateInv s)
include h

/-- Every outstanding lease is an object, so the counter is never full. -/
theorem not_full : count s.word ≠ 2 ^ 63 - 1 := by
  have hle : s.outstanding ≤ s.objects := by
    refine List.countP_mono_left (fun pc _ hpc => ?_)
    cases pc <;> first | rfl | cases hpc
  have hroom := h.room
  have hcount := h.count_eq
  have hsize : leaseSize = 8 := rfl
  rw [hsize] at hroom
  omega

/-- While a lease holds the mutex, no `stop` does. -/
theorem stop_outside (hi : s.leases[i]? = some pc) (hpc : pc.holds)
    {x : StopCall} (hx : x ∈ s.stops) : x.pc.holds = false := by
  obtain ⟨j, hj⟩ := List.getElem?_of_mem hx
  cases hh : x.pc.holds with
  | false => rfl
  | true =>
    have hmu := (h.leaseHolds i pc hi hpc).symm.trans (h.stopHolds j x hj hh)
    cases hmu

/-- While a `stop` holds the mutex, or nobody does, no lease does. -/
theorem lease_outside (hmu : ∀ i, s.mu ≠ some (.lease i)) : ∀ pc ∈ s.leases, pc.holds = false := by
  intro pc hpc
  obtain ⟨i, hi⟩ := List.getElem?_of_mem hpc
  cases hh : pc.holds with
  | false => rfl
  | true => exact absurd (h.leaseHolds i pc hi hh) (hmu i)

/-- A `stop` has succeeded only if nothing is outstanding. -/
theorem empty_of_succeeds {x : StopCall} (hx : x ∈ s.stops)
    (hsucc : x.pc.succeeds) : s.outstanding = 0 := by
  rw [← h.count_eq]
  exact ((ready_iff s).mp ((h.awaits x hx).succeeds hsucc).1).2

/-- While something is outstanding no `stop` has succeeded. -/
theorem not_succeeds (hi : s.leases[i]? = some pc) (hout : pc.outstanding)
    {x : StopCall} (hx : x ∈ s.stops) : x.pc.succeeds = false := by
  cases hsucc : x.pc.succeeds with
  | false => rfl
  | true =>
    have hzero := h.empty_of_succeeds hx hsucc
    exact absurd hout (List.countP_eq_zero.mp hzero pc (List.mem_of_getElem? hi))

end

end GateInv

theorem gateInv_init : GateInv init where
  count_eq := by decide
  closed_eq := by decide
  leaseHolds := by simp [init]
  stopHolds := by simp [init]
  sawClosed := by simp [init]
  awaits := by simp [init]
  room := by decide

/-! ### What a stop relies on -/

section Awaits

variable {ready : Bool} {leases : List LeasePc} {x : StopCall}

/-- A lease that is not about to notify may move without disturbing the stops, if it does not
    take the mutex after a `stop` has succeeded. -/
theorem Awaits.setLease (h : Awaits ready leases x) (pc' : LeasePc) (hi : leases[i]? = some pc)
    (hpc : pc ≠ .notifying) (hhold : x.pc.succeeds → pc'.holds = false) :
    Awaits ready (leases.set i pc') x where
  registering := h.registering
  parked hpark hready := mem_set_of_ne hi (h.parked hpark hready) hpc.symm
  succeeds hsucc := by
    obtain ⟨hready, hnone⟩ := h.succeeds hsucc
    exact ⟨hready, forall_mem_set hnone (hhold hsucc)⟩

/-- A `stop` that has not closed the gate relies on nothing. -/
theorem Awaits.of_open (hx : x.pc.closed = false) : Awaits ready leases x := by
  have hpc : ∀ pc, x.pc ≠ .waiting pc := by
    intro pc hpc
    rw [hpc] at hx
    cases hx
  refine ⟨fun h => absurd h (hpc _), fun h => absurd h (hpc _), fun h => ?_⟩
  cases hxp : x.pc with
  | waiting pc => exact absurd hxp (hpc pc)
  | returned => rw [hxp] at hx; cases hx
  | locking | closing | cancelled | failed => rw [hxp] at h; cases h

/-- In a gate that is still in use, only a `stop` that has succeeded could be wrong. -/
theorem Awaits.of_busy (hsucc : x.pc.succeeds = false) : Awaits false leases x where
  registering _ := rfl
  parked _ hready := by cases hready
  succeeds h := by simp [hsucc] at h

/-- Once the last releaser is about to notify, a `stop` outside the mutex may park. -/
theorem Awaits.of_notifying (hhold : x.pc.holds = false) (hsucc : x.pc.succeeds = false)
    (hmem : .notifying ∈ leases) : Awaits ready leases x where
  registering h := by rw [h] at hhold; cases hhold
  parked _ _ := hmem
  succeeds h := by simp [hsucc] at h

/-- A `stop` that is neither parked nor about to park, and has not succeeded. -/
theorem Awaits.of_ne (hreg : x.pc ≠ .waiting .registering) (hpark : x.pc ≠ .waiting .parked)
    (hsucc : x.pc.succeeds = false) : Awaits ready leases x where
  registering h := absurd h hreg
  parked h := absurd h hpark
  succeeds h := by simp [hsucc] at h

theorem Awaits.wakeStop (h : Awaits ready leases x) : Awaits ready leases (State.wakeStop x) := by
  unfold State.wakeStop
  split
  · exact .of_ne nofun nofun rfl
  · exact h

end Awaits

/-! ### Leases -/

namespace GateInv

/-- The frame rule for a step of the lease `i`. -/
theorem setLease (h : GateInv s) (hi : s.leases[i]? = some pc) (pc' : LeasePc) (word : StateWord)
    (mu : Option Holder) (hcount : count word = (s.leases.set i pc').countP LeasePc.outstanding)
    (hclosed : isClosed word = isClosed s.word) (hself : pc'.holds → mu = some (.lease i))
    (hmu : ∀ m, m ≠ .lease i → s.mu = some m → mu = some m) (hsaw : pc'.sawClosed → isClosed s.word)
    (hawaits : ∀ x ∈ s.stops, Awaits (word == kClosed) (s.leases.set i pc') x)
    (hocc : pc'.occupies → pc.occupies) :
    GateInv { s.setLease i pc' with word := word, mu := mu } where
  count_eq := hcount
  closed_eq := hclosed.trans h.closed_eq
  leaseHolds k pc hk hpc := by
    rcases getElem?_set_cases hk with ⟨rfl, rfl⟩ | ⟨hne, hk⟩
    · exact hself hpc
    · refine hmu _ (fun heq => hne ?_) (h.leaseHolds k pc hk hpc)
      cases heq
      rfl
  stopHolds j x hj hx := hmu _ nofun (h.stopHolds j x hj hx)
  sawClosed := by
    change ∀ pc ∈ s.leases.set i pc', pc.sawClosed → isClosed word
    rw [hclosed]
    exact forall_mem_set h.sawClosed hsaw
  awaits := hawaits
  room := by
    have hobj := countP_set LeasePc.occupies hi pc'
    have hle : (s.leases.set i pc').countP LeasePc.occupies ≤ s.objects := by
      change _ ≤ s.leases.countP LeasePc.occupies
      cases ho' : pc'.occupies with
      | false =>
        rw [ho', if_neg Bool.false_ne_true] at hobj
        omega
      | true =>
        rw [ho', hocc ho', if_pos rfl] at hobj
        omega
    exact (Nat.mul_le_mul_right _ hle).trans h.room

/-- Waking the stops leaves nobody parked. -/
theorem notifyAll (h : GateInv s) : GateInv s.notifyAll where
  count_eq := h.count_eq
  closed_eq := by
    change isClosed s.word = (s.stops.map wakeStop).any (·.pc.closed)
    rw [h.closed_eq, List.any_map]
    congr 1
    funext x
    change x.pc.closed = (wakeStop x).pc.closed
    unfold wakeStop
    split
    next hpc =>
      rw [hpc]
      rfl
    · rfl
  leaseHolds := h.leaseHolds
  stopHolds j x hj hx := by
    change (s.stops.map wakeStop)[j]? = some x at hj
    rw [List.getElem?_map] at hj
    obtain ⟨y, hy, rfl⟩ := Option.map_eq_some_iff.mp hj
    unfold wakeStop at hx
    split at hx
    · cases hx
    · exact h.stopHolds j y hy hx
  sawClosed := h.sawClosed
  awaits x hx := by
    obtain ⟨y, hy, rfl⟩ := List.mem_map.mp hx
    exact (h.awaits y hy).wakeStop
  room := h.room

/-- After `NotifyAll` nobody is parked. -/
theorem not_parked_notifyAll {x : StopCall} (hx : x ∈ s.notifyAll.stops) :
    x.pc ≠ .waiting .parked := by
  obtain ⟨y, -, rfl⟩ := List.mem_map.mp hx
  unfold wakeStop
  split
  · exact nofun
  · assumption

/-- While the gate is open no `stop` waits. -/
theorem awaits_of_open (h : GateInv s) (hopen : isClosed s.word = false) {ready : Bool}
    {leases : List LeasePc} : ∀ x ∈ s.stops, Awaits ready leases x := by
  intro x hx
  apply Awaits.of_open
  have hnone := h.closed_eq.symm.trans hopen
  exact Bool.eq_false_iff.mpr (List.any_eq_false.mp hnone x hx)

theorem count_pos (h : GateInv s) (hi : s.leases[i]? = some pc) (hout : pc.outstanding) :
    count s.word ≠ 0 := by
  rw [h.count_eq]
  exact Nat.ne_of_gt (List.countP_pos_iff.mpr ⟨pc, List.mem_of_getElem? hi, hout⟩)

/-- A lease that is given back takes one off the count. -/
theorem count_leave (h : GateInv s) (hi : s.leases[i]? = some pc) (hout : pc.outstanding)
    {pc' : LeasePc} (hout' : pc'.outstanding = false) :
    count (s.word - 1) = (s.leases.set i pc').countP LeasePc.outstanding := by
  have hless := countP_set_leave hi hout hout'
  have hsum : count s.word = s.leases.countP LeasePc.outstanding := h.count_eq
  rw [(leave (h.count_pos hi hout)).1]
  omega

end GateInv

/-- **Leases keep the invariant.** -/
theorem leaseMove_gateInv (h : GateInv s) (hi : s.leases[i]? = some pc) (hm : LeaseMove s i pc s') :
    GateInv s' := by
  have hmem := List.mem_of_getElem? hi
  have hsame : ∀ pc', pc'.outstanding = pc.outstanding →
      count s.word = (s.leases.set i pc').countP LeasePc.outstanding :=
    fun pc' hout => h.count_eq.trans (countP_set_same hi hout).symm
  cases hm with
  | walk pc' hout hhold hhold' hocc hclosed hload =>
    refine h.setLease hi pc' s.word s.mu (hsame pc' hout) rfl ?_ (fun _ _ => id) ?_ ?_ hocc
    · intro hh
      simp [hhold'] at hh
    · intro hsaw
      cases pc' with
      | releaseLoaded state =>
        rw [← hload state rfl]
        exact hsaw
      | locking =>
        obtain ⟨state, rfl, hst⟩ := hclosed rfl
        exact h.sawClosed _ hmem hst
      | subtracting | notifying | unlocking => cases hhold'
      | entered | loaded | refused | live | releasing | released => cases hsaw
    · intro x hx
      refine (h.awaits x hx).setLease pc' hi ?_ (fun _ => hhold')
      rintro rfl
      cases hhold
  | grant hpc hopen =>
    subst hpc
    obtain ⟨hcount, hclosed⟩ := enter h.not_full
    refine h.setLease hi .live (s.word + 1) s.mu ?_ hclosed nofun (fun _ _ => id) nofun
      (h.awaits_of_open hopen) (fun _ => rfl)
    rw [hcount, h.count_eq, countP_set_enter hi rfl rfl]
    rfl
  | giveBack hpc hopen =>
    subst hpc
    exact h.setLease hi .released (s.word - 1) s.mu (h.count_leave hi rfl rfl)
      (leave (h.count_pos hi rfl)).2 nofun (fun _ _ => id) nofun (h.awaits_of_open hopen) nofun
  | lock hpc hmu =>
    subst hpc
    refine h.setLease hi .subtracting s.word (some (.lease i)) (hsame _ rfl) rfl (fun _ => rfl) ?_
      (fun _ => h.sawClosed _ hmem rfl) ?_ (fun _ => rfl)
    · intro m _ hm
      simp [hmu] at hm
    · intro x hx
      refine (h.awaits x hx).setLease .subtracting hi nofun (fun hsucc => ?_)
      simp [h.not_succeeds hi rfl hx] at hsucc
  | subtractLast hpc hlast =>
    subst hpc
    refine h.setLease hi .notifying (s.word - 1) s.mu (h.count_leave hi rfl rfl)
      (leave (h.count_pos hi rfl)).2 (fun _ => h.leaseHolds i _ hi rfl) (fun _ _ => id)
      (fun _ => h.sawClosed _ hmem rfl) ?_ (fun _ => rfl)
    intro x hx
    have hlt : i < s.leases.length := lt_of_getElem? hi
    exact .of_notifying (h.stop_outside hi rfl hx) (h.not_succeeds hi rfl hx)
      (List.mem_set hlt _)
  | subtract hpc hmore =>
    subst hpc
    have hclosed := h.sawClosed _ hmem rfl
    obtain ⟨hcount, hkept⟩ := leave (h.count_pos hi rfl)
    -- Another lease is still out, so the predicate stays false.
    have hbusy : (s.word - 1 == kClosed) = false := by
      refine Bool.eq_false_iff.mpr (fun hready => ?_)
      have hzero := ((ready_iff { s with word := s.word - 1 }).mp hready).2
      have hone : count s.word ≠ 1 := mt (last_iff hclosed).mpr hmore
      have hpos := h.count_pos hi rfl
      change count (s.word - 1) = 0 at hzero
      omega
    refine h.setLease hi .unlocking (s.word - 1) s.mu (h.count_leave hi rfl rfl) hkept
      (fun _ => h.leaseHolds i _ hi rfl) (fun _ _ => id) (fun _ => hclosed) ?_ (fun _ => rfl)
    intro x hx
    rw [hbusy]
    exact .of_busy (h.not_succeeds hi rfl hx)
  | notify hpc =>
    subst hpc
    have h' := h.notifyAll
    refine h'.setLease hi .unlocking s.word s.mu (hsame _ rfl) rfl
      (fun _ => h.leaseHolds i _ hi rfl) (fun _ _ => id) (fun _ => h.sawClosed _ hmem rfl) ?_
      (fun _ => rfl)
    intro x hx
    have hout := h'.stop_outside hi rfl hx
    refine .of_ne ?_ (GateInv.not_parked_notifyAll hx) ?_
    · intro hpc
      rw [hpc] at hout
      cases hout
    · cases hsucc : x.pc.succeeds with
      | false => rfl
      | true => exact absurd (((h'.awaits x hx).succeeds hsucc).2 _ hmem) nofun
  | unlock hpc =>
    subst hpc
    have hmine := h.leaseHolds i _ hi rfl
    refine h.setLease hi .released s.word none (hsame _ rfl) rfl nofun ?_ nofun ?_ nofun
    · intro m hne hm
      rw [hmine] at hm
      cases hm
      exact absurd rfl hne
    · intro x hx
      exact (h.awaits x hx).setLease .released hi nofun (fun _ => rfl)

end ServiceLib.Admission
