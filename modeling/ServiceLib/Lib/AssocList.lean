import Mathlib.Data.List.Basic

namespace ServiceLib.AssocList

/-!
# Association lists

A map kept as a list of entries, in the order in which the keys were first assigned.
-/

open List

variable {κ β : Type} [DecidableEq κ] {k : κ} {v : β} {e : κ × β} {es : List (κ × β)}

/-- Replaces the value under `k`, or adds the entry at the end. -/
def assign (k : κ) (v : β) : List (κ × β) → List (κ × β)
  | [] => [(k, v)]
  | e :: es => if k = e.1 then (k, v) :: es else e :: assign k v es

theorem lookup_cons (k : κ) (e : κ × β) (es : List (κ × β)) :
    (e :: es).lookup k = if k = e.1 then some e.2 else es.lookup k := by
  obtain ⟨k', v⟩ := e
  by_cases h : k = k'
  · simp [h]
  · simp [List.lookup_cons, beq_false_of_ne h, h]

/-- `assign` changes what is found under its own key, and under no other. -/
theorem lookup_assign (k k' : κ) (v : β) (es : List (κ × β)) :
    (assign k v es).lookup k' = if k' = k then some v else es.lookup k' := by
  induction es with
  | nil => exact lookup_cons k' (k, v) []
  | cons e es ih => grind [assign, lookup_cons]

/-- Assigning the value a key already has changes nothing. -/
theorem assign_eq_self (h : es.lookup k = some v) : assign k v es = es := by
  induction es with
  | nil => cases h
  | cons e es ih => grind [assign, lookup_cons]

theorem mem_assign (h : e ∈ assign k v es) : e = (k, v) ∨ e ∈ es := by
  induction es with
  | nil => exact .inl (mem_singleton.mp h)
  | cons e' es ih => grind [assign]

theorem nodup_assign (k : κ) (v : β) (h : (es.map Prod.fst).Nodup) :
    ((assign k v es).map Prod.fst).Nodup := by
  induction es with
  | nil => simp [assign]
  | cons e es ih =>
    rw [map_cons, nodup_cons] at h
    unfold assign
    split
    case isTrue hk => simpa [hk] using h
    case isFalse hk =>
      rw [map_cons, nodup_cons]
      refine ⟨fun hmem => ?_, ih h.2⟩
      obtain ⟨e', he', hfst⟩ := mem_map.mp hmem
      rcases mem_assign he' with rfl | he'
      · exact hk hfst
      · exact h.1 (mem_map.mpr ⟨e', he', hfst⟩)

theorem mem_of_lookup (h : es.lookup k = some v) : (k, v) ∈ es := by
  induction es with
  | nil => cases h
  | cons e es ih => grind [lookup_cons]

/-- With distinct keys, every entry is the one found under its key. -/
theorem lookup_of_mem (hnodup : (es.map Prod.fst).Nodup) (h : e ∈ es) :
    es.lookup e.1 = some e.2 := by
  induction es with
  | nil => cases h
  | cons e' es ih =>
    rw [map_cons, nodup_cons] at hnodup
    rcases mem_cons.mp h with rfl | h
    · rw [lookup_cons, if_pos rfl]
    · have hne : e.1 ≠ e'.1 := fun heq => hnodup.1 (heq ▸ mem_map_of_mem h)
      rw [lookup_cons, if_neg hne, ih hnodup.2 h]

theorem mem_keys_iff : k ∈ es.map Prod.fst ↔ (es.lookup k).isSome := by
  induction es with
  | nil => simp
  | cons e es ih => grind [lookup_cons]

end ServiceLib.AssocList
