import Mathlib.Algebra.BigOperators.Fin
import Mathlib.Data.List.AList

namespace ServiceLib.Rotating

/-!
# The rotating map

`RotatingMap` of `runtime/store/rotatingmap.hpp`: 64 shards, each with two generations.  New
entries go to the current generation; a rotation moves everything to the previous one, so that
the buckets of a map that has shrunk are given back.

The state of the rotation task only decides whether a rotation happens and is left out.
-/

open List Option Function AList

variable {K V : Type} [DecidableEq K]

/-- `RotatingMap::Shard`. -/
structure Shard (K V : Type) where
  current : AList (fun _ : K => V)
  previous : AList (fun _ : K => V)
  highWaterMark : Nat
  disjoint : ∀ k ∈ current, k ∉ previous

namespace Shard

/-- A shard of a new map. -/
def empty : Shard K V where
  current := ∅
  previous := ∅
  highWaterMark := 0
  disjoint _ h := absurd h (notMem_empty _)

def get (s : Shard K V) (k : K) : Option V :=
  match s.current.lookup k with
  | some v => some v
  | none => s.previous.lookup k

/-- `none` is `DuplicateKeyError`. -/
def set (s : Shard K V) (k : K) (v : V) : Option (Shard K V) :=
  if h : k ∈ s.current ∨ k ∈ s.previous then none
  else some { s with
    current := s.current.insert k v
    disjoint := fun k' hk' => by
      rcases mem_insert s.current |>.mp hk' with rfl | hk'
      · exact fun hp => h (.inr hp)
      · exact s.disjoint k' hk' }

/-- The value that is removed, and the shard without it. -/
def pop (s : Shard K V) (k : K) : Option V × Shard K V :=
  if k ∈ s.current then
    (s.current.lookup k, { s with
      current := s.current.erase k
      disjoint := fun k' hk' => s.disjoint k' (mem_erase.mp hk').2 })
  else
    (s.previous.lookup k, { s with
      previous := s.previous.erase k
      disjoint := fun k' hk' hp => s.disjoint k' hk' (mem_erase.mp hp).2 })

def size (s : Shard K V) : Nat := s.current.entries.length + s.previous.entries.length

/-- `rotateShard`. -/
def rotate (minCapacity : Nat) (s : Shard K V) : Shard K V :=
  let total := s.size
  let shouldRotate := s.highWaterMark == 0 || total < (s.highWaterMark + 4 - 1) / 4
  let raised := { s with highWaterMark := max s.highWaterMark total }
  if raised.highWaterMark < minCapacity || !shouldRotate then raised
  else
    { current := ∅
      previous := s.current ∪ s.previous
      highWaterMark := total
      disjoint := fun _ h => absurd h (notMem_empty _) }

variable {s : Shard K V} {k k' : K} {v : V}

theorem get_eq_none : s.get k = none ↔ k ∉ s.current ∧ k ∉ s.previous := by
  unfold get
  cases h : s.current.lookup k with
  | none =>
    rw [lookup_eq_none] at h
    exact ⟨fun h' => ⟨h, lookup_eq_none.mp h'⟩, fun h' => lookup_eq_none.mpr h'.2⟩
  | some v =>
    have hmem : k ∈ s.current := lookup_isSome.mp (by rw [h]; rfl)
    exact ⟨fun h' => absurd h' (some_ne_none v), fun h' => absurd hmem h'.1⟩

theorem get_set {s' : Shard K V} (h : s.set k v = some s') (k' : K) :
    s'.get k' = if k' = k then some v else s.get k' := by
  unfold set at h
  split at h
  · cases h
  · cases h
    unfold get
    by_cases hk : k' = k
    · subst hk
      rw [if_pos rfl]
      simp only [lookup_insert]
    · rw [if_neg hk]
      simp only [lookup_insert_ne hk]

theorem set_eq_none : s.set k v = none ↔ s.get k ≠ none := by
  rw [Ne, get_eq_none, not_and_or, Decidable.not_not, Decidable.not_not]
  unfold set
  split
  · exact ⟨fun _ => ‹_›, fun _ => rfl⟩
  · exact ⟨fun h => absurd h (some_ne_none _), fun h => absurd h ‹_›⟩

theorem get_pop (s : Shard K V) (k k' : K) :
    (s.pop k).2.get k' = if k' = k then none else s.get k' := by
  unfold pop
  split
  next hmem =>
    unfold get
    by_cases hk : k' = k
    · subst hk
      rw [if_pos rfl]
      simp only [lookup_erase]
      exact lookup_eq_none.mpr (s.disjoint k' hmem)
    · rw [if_neg hk]
      simp only [lookup_erase_ne hk]
  next hmem =>
    unfold get
    by_cases hk : k' = k
    · subst hk
      rw [if_pos rfl]
      simp only [lookup_eq_none.mpr hmem, lookup_erase]
    · rw [if_neg hk]
      simp only [lookup_erase_ne hk]

theorem get_rotate (minCapacity : Nat) (s : Shard K V) (k : K) :
    (s.rotate minCapacity).get k = s.get k := by
  unfold rotate
  simp only
  split
  · rfl
  · unfold get
    simp only [lookup_empty]
    by_cases hmem : k ∈ s.current
    · rw [lookup_union_left hmem]
      obtain ⟨v, hv⟩ := isSome_iff_exists.mp (lookup_isSome.mpr hmem)
      rw [hv]
    · rw [lookup_union_right hmem, lookup_eq_none.mpr hmem]

/-! ### The keys of a shard -/

def keys (s : Shard K V) : Finset K := s.current.keys.toFinset ∪ s.previous.keys.toFinset

theorem mem_keys : k ∈ s.keys ↔ s.get k ≠ none := by
  rw [Ne, get_eq_none, not_and_or, Decidable.not_not, Decidable.not_not, keys, Finset.mem_union,
    List.mem_toFinset, List.mem_toFinset]
  rfl

theorem card_keys (s : Shard K V) : s.keys.card = s.size := by
  have hdisj : Disjoint s.current.keys.toFinset s.previous.keys.toFinset := by
    rw [Finset.disjoint_left]
    intro k hc hp
    exact s.disjoint k (List.mem_toFinset.mp hc) (List.mem_toFinset.mp hp)
  have hlen : ∀ m : AList (fun _ : K => V), m.keys.toFinset.card = m.entries.length := by
    intro m
    rw [toFinset_card_of_nodup m.keys_nodup]
    exact length_map ..
  rw [keys, Finset.card_union_of_disjoint hdisj, hlen, hlen]
  rfl

end Shard

/-- `kRotatingMapShardCount`. -/
abbrev shardCount : Nat := 64

/-- A rotating map, for a hash function and a minimum capacity that do not change.  Every key
    is in the shard it hashes to (`shardFor`). -/
structure RotatingMap (K V : Type) [DecidableEq K] where
  hash : K → Nat
  minCapacity : Nat
  shards : Fin shardCount → Shard K V
  placed : ∀ i k, (shards i).get k ≠ none → Fin.ofNat shardCount (hash k) = i

namespace RotatingMap

/-- A new map. -/
def empty (hash : K → Nat) (minCapacity : Nat) : RotatingMap K V where
  hash := hash
  minCapacity := minCapacity
  shards _ := Shard.empty
  placed _ _ h := absurd rfl h

/-- `shardFor`. -/
def shardFor (m : RotatingMap K V) (k : K) : Fin shardCount := Fin.ofNat shardCount (m.hash k)

/-- Replace shard `i` by one whose keys belong there. -/
def setShard (m : RotatingMap K V) (i : Fin shardCount) (s : Shard K V)
    (h : ∀ k, s.get k ≠ none → m.shardFor k = i) : RotatingMap K V :=
  { m with
    shards := update m.shards i s
    placed := fun j k hk => by
      by_cases hj : j = i
      · subst hj
        rw [update_self] at hk
        exact h k hk
      · rw [update_of_ne hj] at hk
        exact m.placed j k hk }

/-- What an operation leaves in a shard was there before or belongs there. -/
theorem placed_of_get {m : RotatingMap K V} {i : Fin shardCount} {s : Shard K V}
    (h : ∀ k, s.get k ≠ none → m.shardFor k = i ∨ (m.shards i).get k ≠ none) (k : K)
    (hk : s.get k ≠ none) : m.shardFor k = i :=
  (h k hk).elim id (m.placed i k)

theorem placed_set {m : RotatingMap K V} {k : K} {v : V} {s : Shard K V}
    (h : (m.shards (m.shardFor k)).set k v = some s) :
    ∀ k', s.get k' ≠ none → m.shardFor k' = m.shardFor k := by
  refine placed_of_get (fun k' hk' => ?_)
  rw [Shard.get_set h] at hk'
  by_cases hkk : k' = k
  · exact .inl (by rw [hkk])
  · exact .inr (by rwa [if_neg hkk] at hk')

theorem placed_pop (m : RotatingMap K V) (k : K) :
    ∀ k', ((m.shards (m.shardFor k)).pop k).2.get k' ≠ none → m.shardFor k' = m.shardFor k := by
  refine placed_of_get (fun k' hk' => .inr ?_)
  rw [Shard.get_pop] at hk'
  by_cases hkk : k' = k
  · exact absurd (if_pos hkk) hk'
  · rwa [if_neg hkk] at hk'

def get (m : RotatingMap K V) (k : K) : Option V := (m.shards (m.shardFor k)).get k

/-- `none` is `DuplicateKeyError`. -/
def set (m : RotatingMap K V) (k : K) (v : V) : Option (RotatingMap K V) :=
  match h : (m.shards (m.shardFor k)).set k v with
  | none => none
  | some s => some (m.setShard (m.shardFor k) s (placed_set h))

/-- The value present, or the one that `factory` makes, with whether it was present; `none`
    when `factory` throws.  The insertion is that of `set`, whose check has just been made. -/
def getOrCreate (m : RotatingMap K V) (k : K) (factory : Option V) :
    Option ((V × Bool) × RotatingMap K V) :=
  match m.get k with
  | some v => some ((v, true), m)
  | none => factory.bind (fun v => (m.set k v).map (fun m' => ((v, false), m')))

def pop (m : RotatingMap K V) (k : K) : Option V × RotatingMap K V :=
  let r := (m.shards (m.shardFor k)).pop k
  (r.1, m.setShard (m.shardFor k) r.2 (m.placed_pop k))

def size (m : RotatingMap K V) : Nat := ∑ i, (m.shards i).size

/-- The rotation of one shard, under its lock. -/
def rotateShard (m : RotatingMap K V) (i : Fin shardCount) : RotatingMap K V :=
  m.setShard i ((m.shards i).rotate m.minCapacity)
    (placed_of_get (fun k hk => .inr (by rwa [Shard.get_rotate] at hk)))

/-- `rotate`: the shards one after another. -/
def rotate (m : RotatingMap K V) : RotatingMap K V :=
  (finRange shardCount).foldl rotateShard m

variable {m m' : RotatingMap K V} {k : K} {v : V}

/-- Reading a map of which the shard of `k` was replaced. -/
theorem get_setShard {s : Shard K V} (h : ∀ k', s.get k' ≠ none → m.shardFor k' = m.shardFor k)
    (f : Option V)
    (hs : ∀ k', s.get k' = if k' = k then f else (m.shards (m.shardFor k)).get k') (k' : K) :
    (m.setShard (m.shardFor k) s h).get k' = if k' = k then f else m.get k' := by
  change (update m.shards (m.shardFor k) s (m.shardFor k')).get k' = _
  by_cases hi : m.shardFor k' = m.shardFor k
  · rw [hi, update_self, hs, get, hi]
  · rw [update_of_ne hi, if_neg (fun hk => hi (congrArg m.shardFor hk))]
    rfl

theorem get_set (h : m.set k v = some m') (k' : K) :
    m'.get k' = if k' = k then some v else m.get k' := by
  unfold set at h
  split at h
  · cases h
  next s hs =>
    cases h
    exact get_setShard (placed_set hs) (some v) (Shard.get_set hs) k'

/-- `set` throws exactly when the key is present. -/
theorem set_eq_none : m.set k v = none ↔ m.get k ≠ none := by
  rw [get, ← Shard.set_eq_none (v := v)]
  unfold set
  split
  next hs =>
    exact ⟨fun _ => hs, fun _ => rfl⟩
  next s hs =>
    exact ⟨fun h => absurd h (some_ne_none _), fun h => absurd (hs.symm.trans h) (some_ne_none _)⟩

theorem get_pop (m : RotatingMap K V) (k k' : K) :
    (m.pop k).2.get k' = if k' = k then none else m.get k' :=
  get_setShard (m.placed_pop k) none (Shard.get_pop _ k) k'

/-- `pop` answers what `get` would. -/
theorem pop_fst (m : RotatingMap K V) (k : K) : (m.pop k).1 = m.get k := by
  change ((m.shards (m.shardFor k)).pop k).1 = (m.shards (m.shardFor k)).get k
  unfold Shard.pop Shard.get
  by_cases hmem : k ∈ (m.shards (m.shardFor k)).current
  · rw [if_pos hmem]
    obtain ⟨v, hv⟩ := isSome_iff_exists.mp (lookup_isSome.mpr hmem)
    simp only [hv]
  · rw [if_neg hmem]
    simp only [lookup_eq_none.mpr hmem]

/-- Rotation is not seen. -/
theorem get_rotateShard (m : RotatingMap K V) (i : Fin shardCount) (k : K) :
    (m.rotateShard i).get k = m.get k := by
  change (update m.shards i _ (m.shardFor k)).get k = _
  by_cases hi : m.shardFor k = i
  · rw [hi, update_self, Shard.get_rotate, get, hi]
  · rw [update_of_ne hi]
    rfl

theorem get_rotate (m : RotatingMap K V) (k : K) : m.rotate.get k = m.get k := by
  have hfold : ∀ (is : List (Fin shardCount)) (m : RotatingMap K V),
      (is.foldl rotateShard m).get k = m.get k := by
    intro is
    induction is with
    | nil => intro m; rfl
    | cons i is ih =>
      intro m
      rw [foldl_cons, ih, get_rotateShard]
  exact hfold _ m

@[simp] theorem get_empty (hash : K → Nat) (minCapacity : Nat) (k : K) :
    (empty hash minCapacity : RotatingMap K V).get k = none := rfl

/-! ### The keys of a map -/

def keys (m : RotatingMap K V) : Finset K := Finset.univ.biUnion (fun i => (m.shards i).keys)

theorem mem_keys : k ∈ m.keys ↔ m.get k ≠ none := by
  simp only [keys, Finset.mem_biUnion, Finset.mem_univ, true_and, Shard.mem_keys]
  constructor
  · rintro ⟨i, hi⟩
    rw [get, shardFor, m.placed i k hi]
    exact hi
  · intro h
    exact ⟨m.shardFor k, h⟩

theorem card_keys (m : RotatingMap K V) : m.keys.card = m.size := by
  have hdisj : ((Finset.univ : Finset (Fin shardCount)) : Set (Fin shardCount)).PairwiseDisjoint
      (fun i => (m.shards i).keys) := by
    intro i _ j _ hij
    rw [onFun, Finset.disjoint_left]
    intro k hi hj
    apply hij
    rw [← m.placed i k (Shard.mem_keys.mp hi), ← m.placed j k (Shard.mem_keys.mp hj)]
  rw [keys, Finset.card_biUnion hdisj]
  exact Finset.sum_congr rfl (fun i _ => Shard.card_keys _)

end RotatingMap

end ServiceLib.Rotating
