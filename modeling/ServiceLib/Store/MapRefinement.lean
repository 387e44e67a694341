import ServiceLib.Store.RotatingMap

namespace ServiceLib.Rotating

/-!
# The rotating map refines a plain map

`PlainMap` is one association list with the operations of `RotatingMap` and without
generations, shards or rotation.  A rotating map represents a plain one when `get` agrees on
every key; that is enough for `size`, since both count their keys.

`rotatingMap_refines_plainMap` is the refinement.
-/

open List Option RotatingMap AList

variable {K V : Type} [DecidableEq K]

/-! ### Operations -/

/-- What a caller or the rotation task does with a map.  `factory` is the value that the
    factory of `getOrCreate` returns, or `none` if it throws. -/
inductive Op (K V : Type)
  | set (k : K) (v : V)
  | getOrCreate (k : K) (factory : Option V)
  | get (k : K)
  | pop (k : K)
  | size
  | rotate
  | rotateShard (i : Fin shardCount)
  deriving DecidableEq, Repr

/-- How an operation ends. -/
inductive Outcome (V : Type)
  | done
  /-- `DuplicateKeyError`. -/
  | duplicateKey
  /-- The exception of the factory. -/
  | factoryThrew
  | found (v : V) (loaded : Bool)
  | value (v : Option V)
  | count (n : Nat)
  deriving DecidableEq, Repr

namespace RotatingMap

/-- One operation on a rotating map. -/
def exec (m : RotatingMap K V) : Op K V → Outcome V × RotatingMap K V
  | .set k v =>
    match m.set k v with
    | some m' => (.done, m')
    | none => (.duplicateKey, m)
  | .getOrCreate k factory =>
    match m.getOrCreate k factory with
    | some ((v, loaded), m') => (.found v loaded, m')
    | none => (.factoryThrew, m)
  | .get k => (.value (m.get k), m)
  | .pop k => (.value (m.pop k).1, (m.pop k).2)
  | .size => (.count m.size, m)
  | .rotate => (.done, m.rotate)
  | .rotateShard i => (.done, m.rotateShard i)

/-- The outcomes of a sequence of operations, and the map after it. -/
def run (m : RotatingMap K V) : List (Op K V) → List (Outcome V) × RotatingMap K V
  | [] => ([], m)
  | op :: ops =>
    let r := (m.exec op).2.run ops
    ((m.exec op).1 :: r.1, r.2)

end RotatingMap

/-- An ordinary map. -/
abbrev PlainMap (K V : Type) := AList (fun _ : K => V)

namespace PlainMap

/-- One operation on an ordinary map, for which rotation does not exist. -/
def exec (p : PlainMap K V) : Op K V → Outcome V × PlainMap K V
  | .set k v => if k ∈ p then (.duplicateKey, p) else (.done, p.insert k v)
  | .getOrCreate k factory =>
    match p.lookup k, factory with
    | some v, _ => (.found v true, p)
    | none, some v => (.found v false, p.insert k v)
    | none, none => (.factoryThrew, p)
  | .get k => (.value (p.lookup k), p)
  | .pop k => (.value (p.lookup k), p.erase k)
  | .size => (.count p.entries.length, p)
  | .rotate | .rotateShard _ => (.done, p)

def run (p : PlainMap K V) : List (Op K V) → List (Outcome V) × PlainMap K V
  | [] => ([], p)
  | op :: ops =>
    let r := (p.exec op).2.run ops
    ((p.exec op).1 :: r.1, r.2)

end PlainMap

/-! ### The refinement -/

/-- The rotating map `m` holds what the ordinary map `p` holds. -/
def Represents (m : RotatingMap K V) (p : PlainMap K V) : Prop := ∀ k, m.get k = p.lookup k

namespace Represents

variable {m m' : RotatingMap K V} {p : PlainMap K V} {k : K} {v : V}

section

variable (h : Represents m p)
include h

theorem mem_iff (k : K) : k ∈ p ↔ m.get k ≠ none := by
  rw [h k, Ne, lookup_eq_none, Decidable.not_not]

theorem size_eq : m.size = p.entries.length := by
  have hkeys : m.keys = p.keys.toFinset := by
    ext k
    rw [RotatingMap.mem_keys, List.mem_toFinset, ← h.mem_iff]
    rfl
  rw [← card_keys, hkeys, toFinset_card_of_nodup p.keys_nodup]
  exact length_map ..

theorem set (hs : m.set k v = some m') : Represents m' (p.insert k v) := by
  intro k'
  rw [get_set hs]
  by_cases hk : k' = k
  · subst hk
    rw [if_pos rfl, lookup_insert]
  · rw [if_neg hk, lookup_insert_ne hk, h k']

theorem pop (k : K) : Represents (m.pop k).2 (p.erase k) := by
  intro k'
  rw [get_pop]
  by_cases hk : k' = k
  · subst hk
    rw [if_pos rfl, lookup_erase]
  · rw [if_neg hk, lookup_erase_ne hk, h k']

/-- **One operation.**  It ends as on the ordinary map, and what it leaves still represents
    what the ordinary map has become. -/
theorem exec (op : Op K V) :
    (m.exec op).1 = (p.exec op).1 ∧ Represents (m.exec op).2 (p.exec op).2 := by
  cases op with
  | set k v =>
    simp only [RotatingMap.exec, PlainMap.exec]
    cases hs : m.set k v with
    | none =>
      rw [if_pos ((h.mem_iff k).mpr (set_eq_none.mp hs))]
      exact ⟨rfl, h⟩
    | some m' =>
      have hnot : k ∉ p := by
        rw [h.mem_iff, ← set_eq_none (v := v), hs]
        exact some_ne_none m'
      rw [if_neg hnot]
      exact ⟨rfl, h.set hs⟩
  | getOrCreate k factory =>
    simp only [RotatingMap.exec, PlainMap.exec, getOrCreate, h k]
    cases hp : p.lookup k with
    | some v => exact ⟨rfl, h⟩
    | none =>
      cases factory with
      | none => exact ⟨rfl, h⟩
      | some v =>
        -- The key is absent, so the insertion cannot throw.
        have hset : m.set k v ≠ none := by
          rw [Ne, set_eq_none, h k, hp]
          exact not_not.mpr rfl
        obtain ⟨m', hm'⟩ := ne_none_iff_exists'.mp hset
        simp only [bind_some, hm', map_some]
        exact ⟨trivial, h.set hm'⟩
  | get k => exact ⟨congrArg Outcome.value (h k), h⟩
  | pop k => exact ⟨congrArg Outcome.value ((pop_fst m k).trans (h k)), h.pop k⟩
  | size => exact ⟨congrArg Outcome.count h.size_eq, h⟩
  | rotate => exact ⟨rfl, fun k => (get_rotate m k).trans (h k)⟩
  | rotateShard i => exact ⟨rfl, fun k => (get_rotateShard m i k).trans (h k)⟩

/-- A sequence of operations, by induction on it. -/
theorem run (ops : List (Op K V)) :
    (m.run ops).1 = (p.run ops).1 ∧ Represents (m.run ops).2 (p.run ops).2 := by
  induction ops generalizing m p with
  | nil => exact ⟨rfl, h⟩
  | cons op ops ih =>
    obtain ⟨hout, hrep⟩ := h.exec op
    obtain ⟨houts, hend⟩ := ih hrep
    refine ⟨?_, hend⟩
    simp only [run, PlainMap.run, hout, houts]

end

end Represents

theorem represents_empty (hash : K → Nat) (minCapacity : Nat) :
    Represents (empty hash minCapacity) (∅ : PlainMap K V) := by
  intro k
  rw [get_empty, lookup_empty]

/-- **`RotatingMap` refines a plain finite map.**  For every hash function, every minimum
    capacity and every sequence of operations,
    each operation ends as the same operation on an ordinary map without rotation;
    after any such sequence `set` throws exactly when the key is present, and then changes
    nothing;
    and no later operation can tell whether the map was rotated in between. -/
theorem rotatingMap_refines_plainMap (hash : K → Nat) (minCapacity : Nat) (ops : List (Op K V)) :
    ((empty hash minCapacity).run ops).1 = ((∅ : PlainMap K V).run ops).1 ∧
    ∀ m, m = ((empty hash minCapacity).run ops).2 →
      (∀ k v, ((m.exec (.set k v)).1 = .duplicateKey ↔ k ∈ ((∅ : PlainMap K V).run ops).2) ∧
        ((m.exec (.set k v)).1 = .duplicateKey → (m.exec (.set k v)).2 = m)) ∧
      ∀ rest, (m.rotate.run rest).1 = (m.run rest).1 := by
  obtain ⟨houts, hrep⟩ := (represents_empty hash minCapacity).run ops
  refine ⟨houts, ?_⟩
  rintro m rfl
  refine ⟨fun k v => ⟨?_, ?_⟩, fun rest => ?_⟩
  · rw [hrep.mem_iff, ← set_eq_none (v := v)]
    simp only [RotatingMap.exec]
    split
    next m' hs =>
      rw [hs]
      exact ⟨fun h => absurd h nofun, fun h => absurd h (some_ne_none m')⟩
    next hs =>
      exact ⟨fun _ => hs, fun _ => rfl⟩
  · simp only [RotatingMap.exec]
    split
    · exact nofun
    · exact fun _ => rfl
  · have hrot := (hrep.exec .rotate).2
    exact (hrot.run rest).1.trans (hrep.run rest).1.symm

/-- Two keys that share a shard; the first is in the previous generation when it is found. -/
def sharedShard : List (Op Nat Bool) :=
  [.set 1 true, .rotate, .set 1 false, .set 65 false, .getOrCreate 1 (some false), .pop 65, .size]

theorem rotatingMap_refines_plainMap_shared :
    ((empty id 0).run sharedShard).1 =
      [.done, .done, .duplicateKey, .done, .found true true, .value (some false), .count 1] ∧
    ((((empty id 0).run sharedShard).2).exec (.set 1 false)).1 = .duplicateKey := by
  obtain ⟨houts, hend⟩ := rotatingMap_refines_plainMap id 0 sharedShard
  refine ⟨houts.trans (by decide +kernel), ?_⟩
  exact ((hend _ rfl).1 1 false).1.mpr (by decide +kernel)

end ServiceLib.Rotating
