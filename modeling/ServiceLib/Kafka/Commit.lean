import ServiceLib.Kafka.Lanes

namespace ServiceLib.Kafka

/-!
# Kafka batches — what a commit covers

userver commits the positions of a whole assignment at once, so a batch can only be committed
as a whole.  The lanes of a batch and the batch callback combine the handlers' requests with
*or*: one request in one partition commits the batch (`asyncCommit_iff_heard`), also messages
that nobody handled (`asyncCommit_covers_dropped`).
-/

open List Option

/-! ### Lanes -/

/-- What holds for a lane when `ms` are the messages of its partition that were delivered. -/
structure LaneInv (x : Lane) (ms : List Message) : Prop where
  delivered : ms <+: x.messages
  /-- In the callback: the message at the lane's position is the last one delivered. -/
  called : x.pc.called → ms = x.messages.take (x.position + 1)
  between : x.pc.called = false → x.pc = .threw ∨ ms = x.messages.take x.position
  finished : x.pc = .finished → x.messages.length ≤ x.position
  commit : x.commit ↔ x.heard ≠ []
  requested : ∀ i ∈ x.requested, i ∈ x.handed
  heard : ∀ i ∈ x.heard, i ∈ x.handed

variable {x x' : Lane} {ms ms' : List Message} {pc pc' : LanePc} {commit : Bool} {k : Nat}
  {lanes : List Lane}

theorem LaneInv.new (x : Partition × List Message) : LaneInv (.new x) [] where
  delivered := nil_prefix
  called := by rintro ⟨⟩
  between := fun _ => .inr take_zero.symm
  finished := by rintro ⟨⟩
  commit := ⟨by rintro ⟨⟩, fun h => absurd rfl h⟩
  requested := by rintro _ ⟨⟩
  heard := by rintro _ ⟨⟩

section

variable (h : LaneInv x ms)
include h

/-- Between two callbacks the messages before the lane's position are delivered. -/
theorem LaneInv.taken (hpc : x.pc = pc) (hc : pc.called = false := by rfl)
    (hne : pc ≠ .threw := by rintro ⟨⟩) : ms = x.messages.take x.position := by
  subst hpc
  exact (h.between hc).resolve_left hne

/-- A finished lane has delivered all its messages. -/
theorem LaneInv.eq_of_finished (hpc : x.pc = .finished) : ms = x.messages := by
  rw [h.taken hpc, take_of_length_le (h.finished hpc)]

/-- The lane comes to a place between two callbacks. -/
theorem LaneInv.outside (hms : ms = x.messages.take x.position)
    (hc : pc'.called = false) (hend : pc' = .finished → x.messages.length ≤ x.position) :
    LaneInv { x with pc := pc' } ms :=
  { h with
    called := fun hc' => absurd (hc.symm.trans hc') Bool.false_ne_true
    between := fun _ => .inr hms
    finished := hend }

/-- The lane comes to a place in the callback. -/
theorem LaneInv.inside (hms : ms ++ ms' = x.messages.take (x.position + 1))
    (hc : pc'.called) : LaneInv { x with pc := pc' } (ms ++ ms') :=
  { h with
    delivered := hms ▸ take_prefix ..
    called := fun _ => hms
    between := fun hc' => absurd (hc'.symm.trans hc) Bool.false_ne_true
    finished := by rintro ⟨⟩; cases hc }

/-- A step of a lane. -/
theorem LaneInv.move (hm : LaneMove x x' ms') : LaneInv x' (ms ++ ms') := by
  cases hm with
  | start pc' hpc hpc' =>
    rw [append_nil]
    refine h.outside (h.taken hpc) ?_ ?_
    · rcases hpc' with rfl | rfl <;> rfl
    · rcases hpc' with rfl | rfl <;> rintro ⟨⟩
  | deliver m hpc hget =>
    refine h.inside ?_ rfl
    rw [h.taken hpc, take_add_one, hget]
    rfl
  | finish hpc hend =>
    rw [append_nil]
    exact h.outside (h.taken hpc) rfl (fun _ => getElem?_eq_none_iff.mp hend)
  | goOn pc' hpc hpc' =>
    have hms : ms ++ [] = x.messages.take (x.position + 1) := by
      rw [append_nil, h.called hpc]
    rcases hpc' with hcalled | rfl
    · exact h.inside hms hcalled
    · rw [append_nil]
      exact { h with
        called := by rintro ⟨⟩
        between := fun _ => .inl rfl
        finished := by rintro ⟨⟩ }
  | hand hpc =>
    rw [append_nil]
    exact { h with
      called := fun _ => h.called (by rw [hpc]; rfl)
      between := by rintro ⟨⟩
      finished := by rintro ⟨⟩
      requested := fun i hi => mem_append_left _ (h.requested i hi)
      heard := fun i hi => mem_append_left _ (h.heard i hi) }
  | load hpc =>
    -- The flag is read right after the callback, so a later request is not heard.
    rw [append_nil]
    have hms := h.called (by rw [hpc]; rfl)
    refine { h with
      called := by rintro ⟨⟩
      between := fun _ => .inr hms
      finished := by rintro ⟨⟩
      commit := ?_
      heard := ?_ }
    · split
      case isTrue hreq => simp [contains_iff_mem.mp hreq]
      case isFalse hreq => rw [Bool.eq_false_iff.mpr hreq, Bool.or_false, h.commit]
    · split
      case isTrue hreq =>
        refine forall_mem_append.mpr ⟨h.heard, forall_mem_singleton.mpr ?_⟩
        exact h.requested _ (contains_iff_mem.mp hreq)
      case isFalse => exact h.heard
  | request i hi =>
    rw [append_nil]
    exact { h with requested := forall_mem_cons.mpr ⟨hi, h.requested⟩ }
  | cancel =>
    rw [append_nil]
    exact { h with }

end

/-- A lane delivers its own messages only. -/
theorem LaneMove.mem_messages (hm : LaneMove x x' ms) {m : Message} (h : m ∈ ms) :
    m ∈ x.messages := by
  cases hm with
  | deliver m' _ hget =>
    rw [mem_singleton.mp h]
    exact mem_of_getElem? hget
  | _ => cases h

/-- The partition and the messages of a lane are those it was started with. -/
def Lane.assigned (x : Lane) : Partition × List Message := (x.partition, x.messages)

theorem LaneMove.assigned (hm : LaneMove x x' ms) : x'.assigned = x.assigned := by
  cases hm <;> rfl

/-- The result of a lane does not change any more. -/
theorem LaneMove.of_finished (hm : LaneMove x x' ms) (hpc : x.pc = .finished) :
    x'.pc = .finished ∧ x'.commit = x.commit := by
  cases hm with
  | request | cancel => exact ⟨hpc, rfl⟩
  | goOn pc' hcalled => rw [hpc] at hcalled; cases hcalled
  | start pc' h | deliver m h | finish h | hand h | load h => cases hpc.symm.trans h

/-! ### Collecting -/

/-- The first `k` lanes have finished, and `commit` is what they returned, taken together. -/
structure Collected (lanes : List Lane) (k : Nat) (commit : Bool) : Prop where
  finished : ∀ j x, j < k → lanes[j]? = some x → x.pc = .finished
  commit : commit ↔ ∃ j x, j < k ∧ lanes[j]? = some x ∧ x.commit

theorem Collected.none (lanes : List Lane) : Collected lanes 0 false where
  finished := by simp
  commit := by simp

section

variable (h : Collected lanes k commit)
include h

/-- `get` of the next lane. -/
theorem Collected.next (hx : lanes[k]? = some x)
    (hend : x.pc = .finished) : Collected lanes (k + 1) (x.commit || commit) where
  finished := by
    intro j y hj hy
    rcases Nat.lt_succ_iff_lt_or_eq.mp hj with hlt | rfl
    · exact h.finished j y hlt hy
    · rw [← some.inj (hx.symm.trans hy)]
      exact hend
  commit := by
    rw [Bool.or_eq_true, h.commit]
    constructor
    · rintro (hc | ⟨j, y, hj, hy, hc⟩)
      · exact ⟨k, x, Nat.lt_succ_self k, hx, hc⟩
      · exact ⟨j, y, Nat.lt_succ_of_lt hj, hy, hc⟩
    · rintro ⟨j, y, hj, hy, hc⟩
      rcases Nat.lt_succ_iff_lt_or_eq.mp hj with hlt | rfl
      · exact .inr ⟨j, y, hlt, hy, hc⟩
      · rw [← some.inj (hx.symm.trans hy)] at hc
        exact .inl hc

/-- Once there is no further lane, all have finished. -/
theorem Collected.all (hend : lanes[k]? = .none) : Collected lanes lanes.length commit := by
  have hlen : lanes.length ≤ k := getElem?_eq_none_iff.mp hend
  refine ⟨fun j x hj => h.finished j x (Nat.lt_of_lt_of_le hj hlen), h.commit.trans ?_⟩
  constructor
  · rintro ⟨j, x, -, hx, hc⟩
    exact ⟨j, x, (lt_of_getElem? hx), hx, hc⟩
  · rintro ⟨j, x, hj, hx, hc⟩
    exact ⟨j, x, Nat.lt_of_lt_of_le hj hlen, hx, hc⟩

/-- A lane moves; one that was collected keeps what it returned. -/
theorem Collected.lane {l : Nat} (hx : lanes[l]? = some x)
    (hm : LaneMove x x' ms) : Collected (lanes.set l x') k commit where
  finished := by
    intro j y hj hy
    rcases getElem?_set_cases hy with ⟨rfl, rfl⟩ | ⟨-, hy⟩
    · exact (hm.of_finished (h.finished j x hj hx)).1
    · exact h.finished j y hj hy
  commit := by
    rw [h.commit]
    constructor
    · rintro ⟨j, y, hj, hy, hc⟩
      by_cases hjl : l = j
      · subst hjl
        obtain rfl := some.inj (hx.symm.trans hy)
        exact ⟨l, x', hj, getElem?_set_some hx x',
          (hm.of_finished (h.finished l x hj hx)).2.trans hc⟩
      · exact ⟨j, y, hj, by rwa [getElem?_set_ne hjl], hc⟩
    · rintro ⟨j, y, hj, hy, hc⟩
      rcases getElem?_set_cases hy with ⟨rfl, rfl⟩ | ⟨-, hy⟩
      · exact ⟨j, x, hj, hx, (hm.of_finished (h.finished j x hj hx)).2.symm.trans hc⟩
      · exact ⟨j, y, hj, hy, hc⟩

end

/-! ### The batch -/

/-- The partitions that still have no lane, where the batch callback means to start one for
    each. -/
def BatchPc.remaining : BatchPc → Option (List (Partition × List Message))
  | .spawning rest => some rest
  | .idle | .collecting _ _ | .returned => some []
  | .unwinding _ | .threw => none

/-- The invariant of a batch. -/
structure BatchInv (v : BatchView) : Prop where
  /-- The lanes stand for the first partitions of the map. -/
  assigned : ∃ rest, v.lanes.map Lane.assigned ++ rest = partitionsOf v.batch ∧
    ∀ r, v.pc.remaining = some r → rest = r
  lanes : ∀ x ∈ v.lanes, LaneInv x (inPartition x.partition v.delivered)
  /-- Only lanes deliver. -/
  owned : ∀ m ∈ v.delivered, ∃ x ∈ v.lanes, x.partition = m.partition
  collected : ∀ k commit, v.pc = .collecting k commit → Collected v.lanes k commit
  returned : v.pc = .returned → Collected v.lanes v.lanes.length v.committed
  uncommitted : v.pc ≠ .returned → v.committed = false

theorem BatchInv.init : BatchInv State.init.view where
  assigned := ⟨[], rfl, fun _ h => some.inj h⟩
  lanes := fun _ h => by cases h
  owned := fun _ h => by cases h
  collected := fun _ _ h => by cases h
  returned := by rintro ⟨⟩
  uncommitted := fun _ => rfl

/-- What a batch starts with: its lanes have delivered nothing. -/
theorem BatchInv.polled (batch : List Message) {pc : BatchPc}
    (hpc : pc = .threw ∨ pc = .spawning (partitionsOf batch)) :
    BatchInv ⟨batch, pc, [], [], false⟩ where
  assigned := by
    refine ⟨partitionsOf batch, rfl, ?_⟩
    rcases hpc with rfl | rfl
    · rintro r ⟨⟩
    · rintro r ⟨⟩
      rfl
  lanes := fun _ h => by cases h
  owned := fun _ h => by cases h
  collected := by rcases hpc with rfl | rfl <;> rintro k commit ⟨⟩
  returned := by rcases hpc with rfl | rfl <;> rintro ⟨⟩
  uncommitted := fun _ => rfl

section

variable {v : BatchView}

section

variable (h : BatchInv v)
include h

namespace BatchInv

/-- A lane has the messages of its partition. -/
theorem messages_eq (hx : x ∈ v.lanes) : x.messages = inPartition x.partition v.batch := by
  obtain ⟨rest, hassigned, -⟩ := h.assigned
  have hmem : x.assigned ∈ partitionsOf v.batch := by
    rw [← hassigned]
    exact mem_append_left _ (mem_map_of_mem hx)
  have hlookup := AssocList.lookup_of_mem (nodup_partitionsOf v.batch) hmem
  have hmessages := lookup_partitionsOf v.batch x.partition
  rw [show (partitionsOf v.batch).lookup x.partition = some x.messages from hlookup] at hmessages
  exact hmessages

theorem partition_eq (hx : x ∈ v.lanes) {m : Message} (hm : m ∈ x.messages) :
    m.partition = x.partition := by
  rw [h.messages_eq hx, inPartition, mem_filter] at hm
  exact of_decide_eq_true hm.2

/-- No two lanes have the same partition. -/
theorem index_eq {i j : Nat} {y : Lane} (hx : v.lanes[i]? = some x)
    (hy : v.lanes[j]? = some y) (hxy : x.partition = y.partition) : i = j := by
  obtain ⟨rest, hassigned, -⟩ := h.assigned
  have hnodup : (v.lanes.map Lane.partition).Nodup := by
    have hall := nodup_partitionsOf v.batch
    rw [← hassigned, map_append, List.map_map] at hall
    exact (nodup_append.mp hall).1
  have hlt : i < (v.lanes.map Lane.partition).length := by
    rw [length_map]
    exact lt_of_getElem? hx
  refine (getElem?_inj hlt hnodup).mp ?_
  rw [getElem?_map, getElem?_map, hx, hy, map_some, map_some, hxy]

/-- A partition without a lane: nothing of it is delivered. -/
theorem undelivered {p : Partition} (hnone : ∀ x ∈ v.lanes, x.partition ≠ p) :
    inPartition p v.delivered = [] := by
  rw [inPartition, filter_eq_nil_iff]
  intro m hm heq
  obtain ⟨x, hx, hxm⟩ := h.owned m hm
  exact hnone x hx (hxm.trans (of_decide_eq_true heq))

/-- A step of a lane, in the batch. -/
theorem lane {l : Nat} (hx : v.lanes[l]? = some x) (hm : LaneMove x x' ms) :
    BatchInv { v with lanes := v.lanes.set l x', delivered := v.delivered ++ ms } := by
  have hpart : x'.partition = x.partition := congrArg Prod.fst hm.assigned
  have hown : ∀ m ∈ ms, m.partition = x.partition := fun m hmem =>
    h.partition_eq (mem_of_getElem? hx) (hm.mem_messages hmem)
  refine ⟨?_, ?_, ?_, ?_, ?_, h.uncommitted⟩
  · obtain ⟨rest, hassigned, hrest⟩ := h.assigned
    refine ⟨rest, ?_, hrest⟩
    rw [map_set_same hx hm.assigned, hassigned]
  · intro y hy
    obtain ⟨j, hj⟩ := mem_iff_getElem?.mp hy
    rcases getElem?_set_cases hj with ⟨rfl, rfl⟩ | ⟨hne, hj⟩
    · -- The lane itself: what it delivers is of its partition.
      have hself : inPartition x.partition ms = ms := by
        rw [inPartition, filter_eq_self]
        intro m hmem
        exact decide_eq_true (hown m hmem)
      rw [hpart, inPartition_append, hself]
      exact (h.lanes x (mem_of_getElem? hx)).move hm
    · -- Another lane: nothing of its partition is delivered.
      have hother : inPartition y.partition ms = [] := by
        rw [inPartition, filter_eq_nil_iff]
        intro m hmem heq
        have hxy : x.partition = y.partition := (hown m hmem).symm.trans (of_decide_eq_true heq)
        exact hne (h.index_eq hj hx hxy.symm)
      rw [inPartition_append, hother, append_nil]
      exact h.lanes y (mem_of_getElem? hj)
  · intro m hmem
    rcases mem_append.mp hmem with hold | hnew
    · exact exists_mem_set hx (fun hxm => hpart.trans hxm) (h.owned m hold)
    · exact ⟨x', mem_set (lt_of_getElem? hx) x', hpart.trans (hown m hnew).symm⟩
  · intro k commit hpc
    exact (h.collected k commit hpc).lane hx hm
  · intro hpc
    have hall := (h.returned hpc).lane hx hm
    rwa [← length_set (i := l) (a := x')] at hall

/-- A new lane has delivered nothing, as no other lane has its partition. -/
theorem spawn {x : Partition × List Message} {rest : List (Partition × List Message)}
    (hpc : v.pc = .spawning (x :: rest)) :
    BatchInv { v with lanes := v.lanes ++ [.new x], pc := .spawning rest } := by
  obtain ⟨rest', hassigned, hrest⟩ := h.assigned
  obtain rfl := hrest (x :: rest) (by rw [hpc]; rfl)
  have hnew : inPartition x.1 v.delivered = [] := by
    refine h.undelivered (fun y hy => ?_)
    have hall := nodup_partitionsOf v.batch
    rw [← hassigned, map_append] at hall
    refine (nodup_append.mp hall).2.2 y.partition ?_ x.1 (mem_cons_self ..)
    exact mem_map.mpr ⟨y.assigned, mem_map_of_mem hy, rfl⟩
  refine ⟨⟨rest, ?_, fun r hr => some.inj hr⟩, ?_, ?_, ?_, ?_, ?_⟩
  · rw [map_append, append_assoc]
    exact hassigned
  · refine forall_mem_concat h.lanes ?_
    have hinv := LaneInv.new x
    rwa [← hnew] at hinv
  · intro m hm
    obtain ⟨y, hy, hym⟩ := h.owned m hm
    exact ⟨y, mem_append_left _ hy, hym⟩
  · rintro k commit ⟨⟩
  · rintro ⟨⟩
  · intro _
    exact h.uncommitted (by simp [hpc])

/-- The batch callback moves on and its lanes stay as they are. -/
theorem goto {pc' : BatchPc} {committed : Bool}
    (hrest : pc'.remaining = none ∨ pc'.remaining = v.pc.remaining)
    (huncommitted : pc' ≠ .returned → committed = false)
    (hcollected : ∀ k commit, pc' = .collecting k commit → Collected v.lanes k commit := by
      rintro _ _ ⟨⟩)
    (hreturned : pc' = .returned → Collected v.lanes v.lanes.length committed := by rintro ⟨⟩) :
    BatchInv { v with pc := pc', committed := committed } := by
  obtain ⟨rest, hassigned, hr⟩ := h.assigned
  refine ⟨⟨rest, hassigned, ?_⟩, h.lanes, h.owned, hcollected, hreturned, huncommitted⟩
  intro r hr'
  rcases hrest with hnone | hsame
  · cases hnone.symm.trans hr'
  · exact hr r (hsame.symm.trans hr')

/-- **Every move keeps the invariant of a batch.** -/
theorem move {v' : BatchView} (hm : Move v v') : BatchInv v' := by
  cases hm with
  | stay => exact h
  | lane hx hm => exact h.lane hx hm
  | poll batch pc' hfree hpc' => exact .polled batch hpc'
  | spawn hpc => exact h.spawn hpc
  | spawned hpc =>
    refine h.goto (.inr (by rw [hpc]; rfl)) (fun _ => h.uncommitted (by simp [hpc])) ?_
    rintro k commit ⟨⟩
    exact .none v.lanes
  | collect hpc hx hend =>
    refine h.goto (.inr (by rw [hpc]; rfl)) (fun _ => h.uncommitted (by simp [hpc])) ?_
    rintro k commit ⟨⟩
    exact (h.collected _ _ hpc).next hx hend
  | @finish k commit hpc hend =>
    have hcommitted : (if commit then true else v.committed) = commit := by
      rw [h.uncommitted (by simp [hpc])]
      cases commit <;> rfl
    rw [hcommitted]
    exact h.goto (.inr (by rw [hpc]; rfl)) (fun hne => absurd rfl hne) (by rintro _ _ ⟨⟩)
      (fun _ => (h.collected k commit hpc).all hend)
  | unwind pc' hbusy hpc' =>
    have huncommitted : v.committed = false := by
      refine h.uncommitted (fun hret => ?_)
      rw [hret] at hbusy
      cases hbusy
    rcases hpc' with rfl | ⟨k, rfl⟩ <;> exact h.goto (.inl rfl) (fun _ => huncommitted)

/-- Without a throwing lane, a batch is delivered completely. -/
theorem delivered_of_returned (hpc : v.pc = .returned) (p : Partition) :
    inPartition p v.delivered = inPartition p v.batch := by
  obtain ⟨rest, hassigned, hrest⟩ := h.assigned
  obtain rfl := hrest [] (by rw [hpc]; rfl)
  rw [append_nil] at hassigned
  by_cases hlane : ∃ x ∈ v.lanes, x.partition = p
  · obtain ⟨x, hx, rfl⟩ := hlane
    obtain ⟨j, hj⟩ := mem_iff_getElem?.mp hx
    have hend : x.pc = .finished :=
      (h.returned hpc).finished j x (lt_of_getElem? hj) hj
    rw [(h.lanes x hx).eq_of_finished hend, h.messages_eq hx]
  · -- A partition without a lane has no messages.
    have hnone : (partitionsOf v.batch).lookup p = none := by
      rw [lookup_eq_none_iff, ← hassigned]
      intro y hy
      obtain ⟨x, hx, rfl⟩ := mem_map.mp hy
      exact bne_iff_ne.mpr (fun hp => hlane ⟨x, hx, hp.symm⟩)
    have hbatch := lookup_partitionsOf v.batch p
    rw [hnone] at hbatch
    rw [← hbatch, getD_none]
    exact h.undelivered (fun x hx hp => hlane ⟨x, hx, hp⟩)

theorem delivered_prefix (p : Partition) : inPartition p v.delivered <+: inPartition p v.batch := by
  by_cases hlane : ∃ x ∈ v.lanes, x.partition = p
  · obtain ⟨x, hx, rfl⟩ := hlane
    rw [← h.messages_eq hx]
    exact (h.lanes x hx).delivered
  · rw [h.undelivered (fun x hx hp => hlane ⟨x, hx, hp⟩)]
    exact nil_prefix

/-- A batch is committed when its callback returns and some lane has heard a request. -/
theorem committed_iff : v.committed ↔ v.pc = .returned ∧ ∃ x ∈ v.lanes, x.heard ≠ [] := by
  constructor
  · intro hc
    have hpc : v.pc = .returned := by
      by_contra hpc
      cases (h.uncommitted hpc).symm.trans hc
    obtain ⟨j, x, -, hx, hcommit⟩ := (h.returned hpc).commit.mp hc
    have hmem := mem_of_getElem? hx
    exact ⟨hpc, x, hmem, (h.lanes x hmem).commit.mp hcommit⟩
  · rintro ⟨hpc, x, hx, hheard⟩
    obtain ⟨j, hj⟩ := mem_iff_getElem?.mp hx
    exact (h.returned hpc).commit.mpr
      ⟨j, x, (lt_of_getElem? hj), hj, (h.lanes x hx).commit.mpr hheard⟩

end BatchInv

end

end

/-- **Every reachable batch has its invariant.** -/
theorem batchInv_of_reachable {owner : Context} {s : State} (h : (system owner).Reachable s) :
    BatchInv s.view :=
  h.invariant (I := fun s => BatchInv s.view) BatchInv.init
    (fun _ hinv _ hstep => hinv.move (step_move hstep))

/-! ### Commits and deliveries -/

/-- **A batch is committed as a whole.**  `AsyncCommit` is called for a batch exactly when the
    batch callback gets to its end, which every lane must have reached normally, and some handler
    that was given a message of the batch had asked for a commit when its lane looked, right after
    the callback for that message.  By then every message was delivered.  In any case each
    partition's messages are delivered in batch order, each at most once. -/
theorem asyncCommit_iff_heard {owner : Context} {s : State} (h : (system owner).Reachable s) :
    (s.committed = true ↔ s.pc = .returned ∧ ∃ x ∈ s.lanes, x.heard ≠ []) ∧
      (s.pc = .returned → (∀ x ∈ s.lanes, x.pc = .finished) ∧
        ∀ p, inPartition p s.delivered = inPartition p s.batch) ∧
      (∀ x ∈ s.lanes, ∀ i ∈ x.heard, i ∈ x.handed) ∧
      ∀ p, inPartition p s.delivered <+: inPartition p s.batch := by
  have hinv := batchInv_of_reachable h
  refine ⟨hinv.committed_iff, ?_, fun x hx => (hinv.lanes x hx).heard, hinv.delivered_prefix⟩
  intro hpc
  refine ⟨?_, hinv.delivered_of_returned hpc⟩
  intro x hx
  obtain ⟨j, hj⟩ := mem_iff_getElem?.mp hx
  exact (hinv.returned hpc).finished j x (lt_of_getElem? hj) hj

/-- One message in each of two partitions. -/
def twoPartitions : List Message := [⟨0, 7⟩, ⟨1, 3⟩]

/-- Starts the two lanes of `twoPartitions`; the first one has its message handled, and the
    handler asks for a commit. -/
def firstCommits : List Action :=
  [.poll twoPartitions false] ++ replicate 3 (.batch false) ++
    replicate 6 (.lane 0 1 .returns) ++ [.request 0 0] ++
    replicate 4 (.lane 0 1 .returns)

/-- A run in which both messages are handled and the batch is committed. -/
theorem asyncCommit_iff_heard_both :
    ∃ s, (system {}).Reachable s ∧ s.committed = true ∧ s.delivered = twoPartitions ∧
      ((s.committed = true ↔ s.pc = .returned ∧ ∃ x ∈ s.lanes, x.heard ≠ []) ∧
        (s.pc = .returned → (∀ x ∈ s.lanes, x.pc = .finished) ∧
          ∀ p, inPartition p s.delivered = inPartition p s.batch) ∧
        (∀ x ∈ s.lanes, ∀ i ∈ x.heard, i ∈ x.handed) ∧
        ∀ p, inPartition p s.delivered <+: inPartition p s.batch) := by
  obtain ⟨s, hs, hcommitted, hall⟩ := (system {}).exists_reachable_of_run
    (firstCommits ++ replicate 10 (.lane 1 1 .returns) ++ replicate 3 (.batch false))
    (fun s => s.committed = true ∧ s.delivered = twoPartitions) (by decide +kernel)
  exact ⟨s, hs, hcommitted, hall, asyncCommit_iff_heard hs⟩

/-- **A commit covers a message that was dropped.**  The first partition's handler asks for a
    commit, then the endpoint stops, and the message of the second partition, which is that
    partition's last one, is dropped at admission. -/
theorem asyncCommit_covers_dropped :
    ∃ s, (system {}).Reachable s ∧ s.committed = true ∧ ⟨1, 3⟩ ∈ s.covered ∧
      ∃ x ∈ s.lanes, x.partition = 1 ∧ x.messages = [⟨1, 3⟩] ∧ x.handed = [] ∧
        x.requested = [] :=
  (system {}).exists_reachable_of_run (firstCommits ++ [.stop] ++
    replicate 6 (.lane 1 1 .returns) ++ replicate 3 (.batch false)) _ (by decide +kernel)

end ServiceLib.Kafka
