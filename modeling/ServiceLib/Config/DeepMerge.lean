import ServiceLib.Lib.AssocList

namespace ServiceLib.Config.DeepMerge

/-!
# Deep merge of two configuration trees

`DeepMerge` lays the override file's tree over the base file's.  Where both sides are objects
it copies the base into a builder and assigns every key of the override, merged with the base's
child if there is one; anywhere else the override wins outright.

`deepMerge_law` is the law of the merge.

The builder's `operator[]` is assumed to replace or insert exactly its key (`assign`).
-/

open AssocList Option

/-- `formats::yaml::Value`.  A scalar is kept as its text. -/
inductive Value where
  | null
  | scalar (text : String)
  | array (items : List Value)
  | object (entries : List (String × Value))

mutual

def deepMerge : Value → Value → Value
  | .object base, .object overrides => .object (mergeLoop base overrides base)
  | _, overrides => overrides

/-- The loop over the override's entries; `base` stays what it was while `builder` changes. -/
def mergeLoop (base : List (String × Value)) :
    List (String × Value) → List (String × Value) → List (String × Value)
  | [], builder => builder
  | (key, it) :: rest, builder =>
    mergeLoop base rest (assign key
      (match base.lookup key with
        | none => it
        | some baseChild => deepMerge baseChild it) builder)

end

/-- What the loop assigns to a key of the override. -/
def mergeChild (base : List (String × Value)) (key : String) (it : Value) : Value :=
  match base.lookup key with
  | none => it
  | some baseChild => deepMerge baseChild it

/-- The keys of every object are distinct. -/
inductive Value.WellFormed : Value → Prop
  | null : WellFormed .null
  | scalar (text : String) : WellFormed (.scalar text)
  | array {items : List Value} (h : ∀ v ∈ items, WellFormed v) : WellFormed (.array items)
  | object {entries : List (String × Value)} (hkeys : (entries.map Prod.fst).Nodup)
      (h : ∀ e ∈ entries, WellFormed e.2) : WellFormed (.object entries)

/-- A configuration tree. -/
abbrev Tree := { v : Value // v.WellFormed }

/-- The value at a path of keys. -/
def Value.get : Value → List String → Option Value
  | v, [] => some v
  | .object entries, key :: path => (entries.lookup key).bind (·.get path)
  | _, _ :: _ => none

/-- Whether the value holds something other than an object above the end of the path. -/
def Value.cuts : Value → List String → Bool
  | _, [] => false
  | .object entries, key :: path => (entries.lookup key).any (·.cuts path)
  | _, _ :: _ => true

variable {b o v : Value} {bs os : List (String × Value)} {key : String} {path : List String}

/-! ### The loop -/

theorem mergeLoop_cons (base : List (String × Value)) (e : String × Value)
    (rest builder : List (String × Value)) :
    mergeLoop base (e :: rest) builder =
      mergeLoop base rest (assign e.1 (mergeChild base e.1 e.2) builder) := by
  rw [mergeLoop, mergeChild]

/-- The loop assigns the override's keys and leaves every other one alone. -/
theorem lookup_mergeLoop (hnodup : (os.map Prod.fst).Nodup) (builder : List (String × Value)) :
    (mergeLoop bs os builder).lookup key =
      ((os.lookup key).map (mergeChild bs key)).or (builder.lookup key) := by
  induction os generalizing builder with
  | nil => rw [mergeLoop]; rfl
  | cons e os ih =>
    rw [List.map_cons, List.nodup_cons, mem_keys_iff] at hnodup
    rw [mergeLoop_cons, ih hnodup.2, lookup_assign, lookup_cons]
    by_cases hk : key = e.1
    · subst hk
      rw [not_isSome_iff_eq_none.mp hnodup.1]
      simp
    · simp [hk]

theorem nodup_mergeLoop {builder : List (String × Value)} (h : (builder.map Prod.fst).Nodup) :
    ((mergeLoop bs os builder).map Prod.fst).Nodup := by
  induction os generalizing builder with
  | nil => rwa [mergeLoop]
  | cons e os ih =>
    rw [mergeLoop_cons]
    exact ih (nodup_assign _ _ h)

/-- A loop that assigns only what the builder already holds changes nothing. -/
theorem mergeLoop_eq_self (h : ∀ e ∈ os, bs.lookup e.1 = some (mergeChild bs e.1 e.2)) :
    mergeLoop bs os bs = bs := by
  induction os with
  | nil => rw [mergeLoop]
  | cons e os ih =>
    rw [mergeLoop_cons, assign_eq_self (h e List.mem_cons_self)]
    exact ih fun e' he' => h e' (List.mem_cons_of_mem e he')

theorem mergeLoop_eq_self_of_child
    (h : ∀ e ∈ os, ∃ w, bs.lookup e.1 = some w ∧ deepMerge w e.2 = w) :
    mergeLoop bs os bs = bs := by
  refine mergeLoop_eq_self fun e he => ?_
  obtain ⟨w, hw, hmerge⟩ := h e he
  simp only [mergeChild, hw, hmerge]

/-! ### Merging keeps the keys of every object distinct -/

/-- A merge has no key twice. -/
theorem Value.WellFormed.deepMerge (hb : b.WellFormed) (ho : o.WellFormed) :
    (deepMerge b o).WellFormed := by
  induction ho generalizing b with
  | null | scalar | array => cases hb <;> constructor <;> assumption
  | object hkeys hos ih =>
    cases hb with
    | object hbkeys hbs =>
      rw [DeepMerge.deepMerge]
      refine .object (nodup_mergeLoop hbkeys) fun e he => ?_
      have hlookup := lookup_of_mem (nodup_mergeLoop hbkeys) he
      rw [lookup_mergeLoop hkeys, or_eq_some_iff, map_eq_some_iff] at hlookup
      rcases hlookup with ⟨it, hit, hchild⟩ | ⟨-, hbase⟩
      · rw [← hchild, mergeChild]
        split
        case h_1 => exact hos _ (mem_of_lookup hit)
        case h_2 baseChild hbase =>
          exact ih _ (mem_of_lookup hit) (hbs _ (mem_of_lookup hbase))
      · exact hbs _ (mem_of_lookup hbase)
    | _ => exact .object hkeys hos

/-! ### Merging the same override again -/

theorem deepMerge_self (h : v.WellFormed) : deepMerge v v = v := by
  induction h with
  | null | scalar | array => rfl
  | object hkeys hos ih =>
    rw [deepMerge]
    congr 1
    exact mergeLoop_eq_self_of_child fun e he => ⟨e.2, lookup_of_mem hkeys he, ih e he⟩

/-- An override that was merged has nothing left to change. -/
theorem deepMerge_deepMerge (ho : o.WellFormed) : deepMerge (deepMerge b o) o = deepMerge b o := by
  induction ho generalizing b with
  | null | scalar | array => cases b <;> rfl
  | @object os hkeys hos ih =>
    cases b with
    | object bs =>
      rw [deepMerge, deepMerge]
      congr 1
      refine mergeLoop_eq_self_of_child fun e he => ⟨mergeChild bs e.1 e.2, ?_, ?_⟩
      · rw [lookup_mergeLoop hkeys, lookup_of_mem hkeys he]
        rfl
      · -- The key came from the override alone, or was merged with the base's child.
        rw [mergeChild]
        split
        case h_1 => exact deepMerge_self (hos e he)
        case h_2 => exact ih e he
    | _ => exact deepMerge_self (.object hkeys hos)

/-! ### Path by path -/

/-- Where the override has a value, that value is merged with the base's, if there is one.
    Elsewhere the base's value stays, unless the override holds a non-object above it. -/
theorem get_deepMerge (ho : o.WellFormed) (path : List String) :
    (deepMerge b o).get path =
      match o.get path with
      | some y => some (((b.get path).map (deepMerge · y)).getD y)
      | none => if o.cuts path then none else b.get path := by
  induction path generalizing b o with
  | nil => simp [Value.get]
  | cons key path ih =>
    cases ho with
    | null | scalar | array => cases b <;> rfl
    | @object os hkeys hos =>
      cases b with
      | object bs =>
        rw [deepMerge]
        cases hit : os.lookup key with
        | none => simp [Value.get, Value.cuts, lookup_mergeLoop hkeys, hit]
        | some it =>
          have hchild : (Value.object (mergeLoop bs os bs)).get (key :: path) =
              (mergeChild bs key it).get path := by
            simp [Value.get, lookup_mergeLoop hkeys, hit]
          rw [hchild]
          cases hbase : bs.lookup key with
          | none =>
            cases hget : it.get path <;> simp [mergeChild, Value.get, hit, hbase, hget]
          | some baseChild =>
            simpa [mergeChild, Value.get, Value.cuts, hit, hbase] using
              ih (hos _ (mem_of_lookup hit)) (b := baseChild)
      | _ => cases hget : (Value.object os).get (key :: path) <;> simp [deepMerge, Value.get, hget]

theorem Value.WellFormed.get (hv : v.WellFormed) (h : v.get path = some b) :
    b.WellFormed := by
  induction path generalizing v with
  | nil => cases v <;> cases h <;> exact hv
  | cons key path ih =>
    cases hv with
    | object hkeys hes =>
      obtain ⟨it, hit, hget⟩ := bind_eq_some_iff.mp h
      exact ih (hes _ (mem_of_lookup hit)) hget
    | _ => cases h

/-- A path the override has ends below no other value. -/
theorem cuts_of_get (h : o.get path = some v) : o.cuts path = false := by
  induction path generalizing o with
  | nil => cases o <;> rfl
  | cons key path ih =>
    cases o with
    | object os =>
      obtain ⟨it, hit, hget⟩ := bind_eq_some_iff.mp h
      simp [Value.cuts, hit, ih hget]
    | _ => cases h

theorem get_append (v : Value) (path rest : List String) :
    v.get (path ++ rest) = (v.get path).bind (·.get rest) := by
  induction path generalizing v with
  | nil => rfl
  | cons key path ih =>
    cases v with
    | object entries => simp only [List.cons_append, Value.get, bind_assoc, ih]
    | _ => rfl

theorem deepMerge_of_not_objects (h : ¬((∃ bs, b = .object bs) ∧ ∃ os, o = .object os)) :
    deepMerge b o = o := by
  cases b <;> cases o <;> first | rfl | exact absurd ⟨⟨_, rfl⟩, _, rfl⟩ h

/-- Where both trees have an object, the merged tree has the object the loop builds. -/
theorem get_deepMerge_objects (ho : o.WellFormed)
    (hb : b.get path = some (.object bs)) (hos : o.get path = some (.object os)) :
    (deepMerge b o).get path = some (.object (mergeLoop bs os bs)) ∧
      ∀ key, (mergeLoop bs os bs).lookup key =
        ((os.lookup key).map (mergeChild bs key)).or (bs.lookup key) := by
  refine ⟨?_, fun key => ?_⟩
  · rw [get_deepMerge ho, hb, hos]
    exact congrArg some (by rw [map_some, getD_some, deepMerge])
  · cases ho.get hos with
    | object hkeys => exact lookup_mergeLoop hkeys bs

/-- **The law of the merge.**  Where both trees have an object, the merged tree has one with the
    keys of both.  At every other path it has the override's value, or the base's where the
    override has none; but below a value of the override that is no object it has nothing.  Keys
    of the base that the override lacks keep their values, and merging again changes nothing. -/
theorem deepMerge_law (b o : Tree) :
    (∀ path bs os, b.1.get path = some (.object bs) → o.1.get path = some (.object os) →
      ∃ ds, (deepMerge b o).get path = some (.object ds) ∧
        ∀ key, key ∈ ds.map Prod.fst ↔ key ∈ bs.map Prod.fst ∨ key ∈ os.map Prod.fst) ∧
    (∀ path, ¬((∃ bs, b.1.get path = some (.object bs)) ∧
        ∃ os, o.1.get path = some (.object os)) →
      (deepMerge b o).get path =
        if o.1.cuts path then none else (o.1.get path).or (b.1.get path)) ∧
    (∀ path key bs os, b.1.get path = some (.object bs) → o.1.get path = some (.object os) →
      key ∉ os.map Prod.fst →
      (deepMerge b o).get (path ++ [key]) = b.1.get (path ++ [key])) ∧
    deepMerge (deepMerge b o) o = deepMerge b o ∧ (deepMerge b o).WellFormed := by
  refine ⟨fun path bs os hb ho => ?_, fun path hnot => ?_, fun path key bs os hb ho hkey => ?_,
    deepMerge_deepMerge o.2, b.2.deepMerge o.2⟩
  · obtain ⟨hget, hlookup⟩ := get_deepMerge_objects o.2 hb ho
    refine ⟨_, hget, fun key => ?_⟩
    simp only [mem_keys_iff, hlookup, isSome_or, isSome_map, Bool.or_eq_true]
    exact or_comm
  · rw [get_deepMerge o.2]
    cases ho : o.1.get path with
    | none => simp
    | some y =>
      rw [cuts_of_get ho]
      cases hb : b.1.get path with
      | none => simp
      | some x => simpa using deepMerge_of_not_objects (by simpa [hb, ho] using hnot)
  · obtain ⟨hget, hlookup⟩ := get_deepMerge_objects o.2 hb ho
    have hnone := not_isSome_iff_eq_none.mp (mt mem_keys_iff.mpr hkey)
    rw [get_append, get_append, hget, hb]
    simp [Value.get, hlookup, hnone]

/-- Below a scalar of the override nothing of the base is left, not even where the override has
    no value of its own. -/
theorem deepMerge_below_scalar : ∃ (b o : Tree) (path : List String),
    o.1.get path = none ∧ b.1.get path = some (.scalar "1") ∧ (deepMerge b o).get path = none :=
  ⟨⟨.object [("a", .object [("x", .scalar "1")])],
      .object (by simp) (by simpa using .object (by simp) (by simpa using .scalar "1"))⟩,
    ⟨.object [("a", .scalar "5")], .object (by simp) (by simpa using .scalar "5")⟩,
    ["a", "x"], by rfl, by rfl, by rfl⟩

end ServiceLib.Config.DeepMerge
