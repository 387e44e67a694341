import ServiceLib.Kafka.Batch
import ServiceLib.Lib.AssocList
import ServiceLib.Lib.ThreadList

namespace ServiceLib.Kafka

/-!
# Kafka batches — partitions and moves

What `partitionsOf` makes of a batch, and everything a step can do to a lane and to a batch, with
the endpoint and the clock taken away.
-/

open State

/-! ### Partitions -/

/-- The messages of partition `p`, in order. -/
def inPartition (p : Partition) (messages : List Message) : List Message :=
  messages.filter (·.partition = p)

theorem inPartition_append (p : Partition) (ms ms' : List Message) :
    inPartition p (ms ++ ms') = inPartition p ms ++ inPartition p ms' := List.filter_append ..

theorem inPartition_singleton_self (m : Message) : inPartition m.partition [m] = [m] := by
  simp [inPartition]

open AssocList (lookup_cons)

variable {p : Partition} {g : List (Partition × List Message)} {ms : List Message} {m : Message}

theorem inPartition_singleton_of_ne (h : m.partition ≠ p) :
    inPartition p [m] = [] := by
  simp [inPartition, h]

/-- The keys of a `std::map` ascend. -/
def Ascending (g : List (Partition × List Message)) : Prop :=
  g.Pairwise (fun x y => x.1 < y.1)

theorem mem_keys_push {x : Partition × List Message} (hx : x ∈ push g m) :
    x.1 = m.partition ∨ ∃ y ∈ g, y.1 = x.1 := by
  induction g with
  | nil => exact .inl (by rw [List.mem_singleton.mp hx])
  | cons y rest ih =>
    rw [push] at hx
    split at hx
    · exact (List.mem_cons.mp hx).imp (congrArg Prod.fst) (fun hmem => ⟨x, hmem, rfl⟩)
    · split at hx <;> rcases List.mem_cons.mp hx with rfl | hmem
      · exact .inr ⟨y, List.mem_cons_self, rfl⟩
      · exact .inr ⟨x, List.mem_cons_of_mem _ hmem, rfl⟩
      · exact .inr ⟨y, List.mem_cons_self, rfl⟩
      · exact (ih hmem).imp id (fun ⟨z, hz, hzx⟩ => ⟨z, List.mem_cons_of_mem _ hz, hzx⟩)

/-- The map stays sorted. -/
theorem Ascending.push (h : Ascending g) (m : Message) : Ascending (push g m) := by
  induction g with
  | nil => exact List.pairwise_singleton ..
  | cons y rest ih =>
    obtain ⟨hhead, hrest⟩ := List.pairwise_cons.mp h
    rw [Kafka.push]
    split
    case isTrue hlt =>
      refine List.pairwise_cons.mpr ⟨List.forall_mem_cons.mpr ⟨hlt, ?_⟩, h⟩
      exact fun z hz => Nat.lt_trans hlt (hhead z hz)
    case isFalse hge =>
      split
      case isTrue => exact List.pairwise_cons.mpr ⟨hhead, hrest⟩
      case isFalse hne =>
        refine List.pairwise_cons.mpr ⟨?_, ih hrest⟩
        intro z hz
        rcases mem_keys_push hz with hz | ⟨y, hy, hyz⟩
        · exact hz ▸ Nat.lt_of_le_of_ne (Nat.le_of_not_lt hge) (Ne.symm hne)
        · exact hyz ▸ hhead y hy

/-- Where the partitions ascend, a smaller one is not there. -/
theorem lookup_of_lt (h : ∀ y ∈ g, p < y.1) : g.lookup p = none := by
  rw [List.lookup_eq_none_iff]
  intro y hy
  exact bne_iff_ne.mpr (Nat.ne_of_lt (h y hy))

/-- A message goes to the end of its partition. -/
theorem lookup_push (h : Ascending g) (m : Message) (p : Partition) :
    (push g m).lookup p =
      if p = m.partition then some ((g.lookup p).getD [] ++ [m]) else g.lookup p := by
  induction g with
  | nil => exact lookup_cons p (m.partition, [m]) []
  | cons y rest ih =>
    obtain ⟨hhead, hrest⟩ := List.pairwise_cons.mp h
    rw [push]
    rcases Nat.lt_trichotomy m.partition y.1 with hlt | heq | hgt
    · -- The partition is new: nothing from `y` on is as small.
      have hnone : (y :: rest).lookup m.partition = none :=
        lookup_of_lt (List.forall_mem_cons.mpr ⟨hlt, fun z hz => Nat.lt_trans hlt (hhead z hz)⟩)
      rw [if_pos hlt, lookup_cons]
      split
      case isTrue hp => rw [hp, hnone]; rfl
      case isFalse => rfl
    · rw [if_neg (Nat.not_lt_of_ge (Nat.le_of_eq heq.symm)), if_pos heq, lookup_cons, lookup_cons,
        heq]
      split <;> rfl
    · rw [if_neg (Nat.lt_asymm hgt), if_neg (Nat.ne_of_gt hgt), lookup_cons, lookup_cons, ih hrest]
      by_cases hpq : p = y.1
      · rw [if_pos hpq, if_pos hpq, if_neg (hpq ▸ Nat.ne_of_lt hgt)]
      · rw [if_neg hpq, if_neg hpq]

/-- A map that was built from the messages `ms`. -/
structure Sorted (g : List (Partition × List Message)) (ms : List Message) : Prop where
  ascending : Ascending g
  lookup : ∀ p, (g.lookup p).getD [] = inPartition p ms

theorem Sorted.push (h : Sorted g ms) (m : Message) : Sorted (push g m) (ms ++ [m]) where
  ascending := h.ascending.push m
  lookup := by
    intro p
    rw [lookup_push h.ascending, inPartition_append]
    by_cases hp : p = m.partition
    · rw [if_pos hp, Option.getD_some, h.lookup, hp, inPartition_singleton_self]
    · rw [if_neg hp, h.lookup, inPartition_singleton_of_ne (Ne.symm hp), List.append_nil]

theorem Sorted.foldl (h : Sorted g ms) (batch : List Message) :
    Sorted (batch.foldl Kafka.push g) (ms ++ batch) := by
  induction batch generalizing g ms with
  | nil => rwa [List.append_nil]
  | cons m rest ih =>
    have hrest := ih (h.push m)
    rwa [List.append_assoc] at hrest

theorem sorted_partitionsOf (batch : List Message) : Sorted (partitionsOf batch) batch := by
  have hempty : Sorted [] [] := ⟨List.Pairwise.nil, fun _ => rfl⟩
  exact hempty.foldl batch

/-- **The map loses nothing and keeps the order.**  Under each partition it has the messages of
    that partition, in batch order. -/
theorem lookup_partitionsOf (batch : List Message) (p : Partition) :
    ((partitionsOf batch).lookup p).getD [] = inPartition p batch :=
  (sorted_partitionsOf batch).lookup p

theorem nodup_partitionsOf (batch : List Message) : ((partitionsOf batch).map Prod.fst).Nodup := by
  rw [List.nodup_iff_pairwise_ne, List.pairwise_map]
  exact (sorted_partitionsOf batch).ascending.imp Nat.ne_of_lt

/-! ### Moves -/

/-- What a step can do to a lane, and the messages it hands to the callback. -/
@[grind intro] inductive LaneMove (x : Lane) : Lane → List Message → Prop
  | start (pc' : LanePc) (hpc : x.pc = .created) (hpc' : pc' = .next ∨ pc' = .threw) :
      LaneMove x { x with pc := pc' } []
  | deliver (m : Message) (hpc : x.pc = .next) (hm : x.messages[x.position]? = some m) :
      LaneMove x { x with pc := .calling } [m]
  | finish (hpc : x.pc = .next) (hend : x.messages[x.position]? = none) :
      LaneMove x { x with pc := .finished } []
  | goOn (pc' : LanePc) (hpc : x.pc.called) (hpc' : pc'.called ∨ pc' = .threw) :
      LaneMove x { x with pc := pc' } []
  | hand (hpc : x.pc = .consuming) :
      LaneMove x { x with pc := .handling, handed := x.handed ++ [x.position] } []
  | load (hpc : x.pc = .loading) :
      LaneMove x { x with
        pc := .next
        position := x.position + 1
        commit := x.commit || x.requested.contains x.position
        heard := if x.requested.contains x.position then x.heard ++ [x.position]
          else x.heard } []
  | request (i : Nat) (hi : i ∈ x.handed) :
      LaneMove x { x with requested := i :: x.requested } []
  | cancel : LaneMove x { x with cancelled := true } []

/-- A batch without the endpoint and the clock. -/
structure BatchView where
  batch : List Message
  pc : BatchPc
  lanes : List Lane
  delivered : List Message
  committed : Bool

def State.view (s : State) : BatchView := ⟨s.batch, s.pc, s.lanes, s.delivered, s.committed⟩

/-- What a step can do to a batch. -/
inductive Move (v : BatchView) : BatchView → Prop
  | stay : Move v v
  | lane {l : Nat} {x x' : Lane} {ms : List Message} (hx : v.lanes[l]? = some x)
      (hm : LaneMove x x' ms) :
      Move v { v with lanes := v.lanes.set l x', delivered := v.delivered ++ ms }
  | poll (batch : List Message) (pc' : BatchPc) (hfree : v.pc.free)
      (hpc' : pc' = .threw ∨ pc' = .spawning (partitionsOf batch)) :
      Move v ⟨batch, pc', [], [], false⟩
  | spawn {x : Partition × List Message} {rest : List (Partition × List Message)}
      (hpc : v.pc = .spawning (x :: rest)) :
      Move v { v with lanes := v.lanes ++ [.new x], pc := .spawning rest }
  | spawned (hpc : v.pc = .spawning []) : Move v { v with pc := .collecting 0 false }
  | collect {k : Nat} {commit : Bool} {x : Lane} (hpc : v.pc = .collecting k commit)
      (hx : v.lanes[k]? = some x) (hend : x.pc = .finished) :
      Move v { v with pc := .collecting (k + 1) (x.commit || commit) }
  | finish {k : Nat} {commit : Bool} (hpc : v.pc = .collecting k commit)
      (hend : v.lanes[k]? = none) :
      Move v { v with pc := .returned, committed := if commit then true else v.committed }
  | unwind (pc' : BatchPc) (hpc : v.pc.free = false)
      (hpc' : pc' = .threw ∨ ∃ k, pc' = .unwinding k) : Move v { v with pc := pc' }

variable {l : Nat} {s s' : State} {owner : Context} {outcome : Outcome} {limit : Int}

/-- A step of a lane that hands no message to the callback. -/
theorem setLane_move {x x' : Lane} (hx : s.lanes[l]? = some x) (hm : LaneMove x x' []) :
    Move s.view (s.setLane l x').view := by
  have hmove := Move.lane (v := s.view) hx hm
  rwa [List.append_nil] at hmove

/-- `acquire`, with every way it can end. -/
theorem acquire_move {x : Lane} (hx : s.lanes[l]? = some x)
    (hpc : x.pc = .admitting) : Move s.view (s.acquire owner l x limit outcome).view := by
  have hcalled : x.pc.called := by rw [hpc]; rfl
  unfold acquire
  split
  · exact setLane_move hx (.goOn _ hcalled (.inl rfl))
  · split
    · exact setLane_move hx (.goOn _ hcalled (.inr rfl))
    · split
      · exact setLane_move hx (.goOn .beginning hcalled (.inl rfl))
      · exact .stay

/-- A step of a lane is one of its moves. -/
theorem laneStep_move
    (h : s.laneStep owner l limit outcome = some s') : Move s.view s'.view := by
  unfold laneStep at h
  split at h
  case h_1 => cases h
  case h_2 x hx =>
    split at h
    case h_2 hpc =>
      split at h
      case h_1 hend => cases h; exact setLane_move hx (.finish hpc hend)
      case h_2 m hm => cases h; exact .lane hx (.deliver m hpc hm)
    case h_4 hpc => cases h; exact acquire_move hx hpc
    case h_8 throwing hpc =>
      cases h
      refine setLane_move hx ?_
      grind [LanePc.called]
    all_goals first | (cases h; exact setLane_move hx (by grind [LanePc.called])) | cases h

theorem request_move {i : Nat} (h : s.request l i = some s') : Move s.view s'.view := by
  unfold request at h
  split at h
  case h_1 => cases h
  case h_2 x hx =>
    split at h
    case isTrue hi => cases h; exact setLane_move hx (.request i (List.contains_iff_mem.mp hi))
    case isFalse => cases h

/-- A step of the batch callback is one of its moves. -/
theorem batchStep_move {fails : Bool} (h : s.batchStep fails = some s') : Move s.view s'.view := by
  unfold batchStep at h
  split at h
  case h_1 hpc =>
    cases h
    exact .spawned hpc
  case h_2 x rest hpc =>
    split at h <;> cases h
    · exact .unwind _ (by rw [view, hpc]; rfl) (.inr ⟨0, rfl⟩)
    · exact .spawn hpc
  case h_3 k commit hpc =>
    have hbusy : s.view.pc.free = false := by rw [view, hpc]; rfl
    split at h
    case h_1 hend =>
      cases h
      have hmove := Move.finish (v := s.view) hpc hend
      cases commit
      · exact hmove
      · exact hmove
    case h_2 x hx =>
      split at h
      · cases h
        exact .unwind _ hbusy (.inr ⟨0, rfl⟩)
      · split at h
        case h_1 hend =>
          cases h
          exact .collect hpc hx hend
        case h_2 =>
          cases h
          exact .unwind _ hbusy (.inr ⟨0, rfl⟩)
        case h_3 => cases h
  case h_4 k hpc =>
    have hbusy : s.view.pc.free = false := by rw [view, hpc]; rfl
    split at h
    case h_1 =>
      cases h
      exact .unwind _ hbusy (.inl rfl)
    case h_2 x hx =>
      split at h
      · cases h
        exact .unwind _ hbusy (.inr ⟨k + 1, rfl⟩)
      · split at h
        · cases h
        · cases h
          exact setLane_move hx .cancel
  case h_5 | h_6 | h_7 => cases h

/-- **Moves.**  A step does to the batch what one of the moves says. -/
theorem step_move {a : Action} (h : step owner s a = some s') : Move s.view s'.view := by
  cases a with
  | tick now =>
    rw [step] at h
    split at h
    · cases h
      exact .stay
    · cases h
  | fire τ =>
    cases h
    exact .stay
  | stop =>
    rw [step, stopStep] at h
    split at h
    · cases h
      exact .stay
    · cases h
      exact .stay
    · cases h
  | poll batch fails =>
    rw [step, poll] at h
    split at h
    case isTrue hfree =>
      cases h
      refine .poll batch _ hfree ?_
      cases fails
      · exact .inr rfl
      · exact .inl rfl
    case isFalse => cases h
  | batch fails => exact batchStep_move h
  | lane l limit outcome => exact laneStep_move h
  | request l i => exact request_move h

end ServiceLib.Kafka
