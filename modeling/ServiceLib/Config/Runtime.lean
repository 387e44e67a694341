import Mathlib.Data.List.Nodup
import ServiceLib.Lib.AssocList
import ServiceLib.Lib.CheckedLoop

namespace ServiceLib.Config

/-!
# The runtime configuration

`RuntimeConfig` of `runtime/config/config.hpp`: its constructor fills eleven indexes over the
lists of a configuration, and the lookups read them.

`runtimeConfig_exact` is the result about both.
-/

open List

/-! ### Configurations -/

inductive DataConnectorType
  | undefined | http | grpc | kafka | custom | cron | temporal
  deriving DecidableEq, Repr

/-- What a stream, a service, an endpoint and a data connector are indexed by. -/
structure ElementConfig where
  name : String
  id : Int

abbrev StreamConfig := ElementConfig

abbrev ServiceConfig := ElementConfig

structure DataConnectorConfig extends ElementConfig where
  type : DataConnectorType

structure EndpointConfig extends ElementConfig where
  idDataConnector : Int
  type : DataConnectorType

structure PoolConfig where
  name : String

structure TypeConfig where
  name : String

/-- Which of the alternatives are given. -/
structure CallSemanticsGroup where
  functionCall : Bool := false
  taskPool : Bool := false
  priorityTaskPool : Bool := false
  parallelCall : Bool := false

def CallSemanticsGroup.count (g : CallSemanticsGroup) : Nat :=
  g.functionCall.toNat + g.taskPool.toNat + g.priorityTaskPool.toNat + g.parallelCall.toNat

def CallSemanticsGroup.validate (g : CallSemanticsGroup) : Except String Unit :=
  if g.count ≠ 1 then
    .error ("exactly one call semantics must be specified, got " ++ toString g.count)
  else .ok ()

/-- A link; `fromID` and `toID` are its `LinkID`. -/
structure LinkConfig where
  fromID : Int
  toID : Int
  callSemantics : Option CallSemanticsGroup := none

def LinkConfig.key (link : LinkConfig) : Int × Int := (link.fromID, link.toID)

/-- How the exceptions name a link. -/
def LinkConfig.text (link : LinkConfig) : String :=
  "link from=" ++ toString link.fromID ++ " to=" ++ toString link.toID

def LinkConfig.validate (link : LinkConfig) : Except String Unit :=
  match link.callSemantics with
  | none => .ok ()
  | some g => g.validate.mapError (fun e => link.text ++ " has invalid configuration: " ++ e)

/-- The lists that are indexed. -/
structure IConfig where
  streams : List StreamConfig := []
  services : List ServiceConfig := []
  endpoints : List EndpointConfig := []
  dataConnectors : List DataConnectorConfig := []
  pools : List PoolConfig := []
  types : List TypeConfig := []
  links : List LinkConfig := []

/-! ### The constructor -/

/-- An unordered map. -/
abbrev Index (κ α : Type) := List (κ × α)

/-- The two indexes over a list of elements. -/
structure Indexes (α : Type) where
  byName : Index String α := []
  byID : Index Int α := []

section

variable {κ α : Type} [DecidableEq κ]

def Index.find (map : Index κ α) (key : κ) : Option α := map.lookup key

/-- `InsertUnique`: `emplace` refuses a key that is there. -/
def insertUnique (map : Index κ α) (key : κ) (value : α) (errorMsg : String) :
    Except String (Index κ α) :=
  if (map.find key).isSome then .error errorMsg else .ok (map ++ [(key, value)])

/-- A round of the loops over streams, services, endpoints and data connectors. -/
def indexElement (what : String) (name : α → String) (id : α → Int) (maps : Indexes α) (x : α) :
    Except String (Indexes α) := do
  let byName ← insertUnique maps.byName (name x) x ("duplicate " ++ what ++ " name: " ++ name x)
  let byID ← insertUnique maps.byID (id x) x ("duplicate " ++ what ++ " id: " ++ toString (id x))
  return ⟨byName, byID⟩

/-- A round of the loops over pools and types. -/
def indexName (what : String) (name : α → String) (map : Index String α) (x : α) :
    Except String (Index String α) :=
  insertUnique map (name x) x ("duplicate " ++ what ++ " name: " ++ name x)

end

def checkConnector (byID : Index Int DataConnectorConfig) (_ : Unit) (endpoint : EndpointConfig) :
    Except String Unit :=
  match byID.find endpoint.idDataConnector with
  | none => .error ("endpoint " ++ endpoint.name ++ " references unknown data connector " ++
      toString endpoint.idDataConnector)
  | some connector =>
    if connector.type ≠ endpoint.type then
      .error ("endpoint " ++ endpoint.name ++ " type does not match data connector " ++
        connector.name)
    else .ok ()

def indexLink (map : Index (Int × Int) LinkConfig) (link : LinkConfig) :
    Except String (Index (Int × Int) LinkConfig) := do
  link.validate
  insertUnique map link.key link ("duplicate " ++ link.text)

structure RuntimeConfig where
  streams : Indexes StreamConfig
  services : Indexes ServiceConfig
  endpoints : Indexes EndpointConfig
  dataConnectors : Indexes DataConnectorConfig
  poolByName : Index String PoolConfig
  typesByName : Index String TypeConfig
  linksByID : Index (Int × Int) LinkConfig

/-- The constructor. -/
def RuntimeConfig.make (config : IConfig) : Except String RuntimeConfig := do
  let streams ← config.streams.foldlM (indexElement "stream" (·.name) (·.id)) {}
  let services ← config.services.foldlM (indexElement "service" (·.name) (·.id)) {}
  let endpoints ← config.endpoints.foldlM (indexElement "endpoint" (·.name) (·.id)) {}
  let dataConnectors ←
    config.dataConnectors.foldlM (indexElement "data connector" (·.name) (·.id)) {}
  config.endpoints.foldlM (checkConnector dataConnectors.byID) ()
  let poolByName ← config.pools.foldlM (indexName "pool" (·.name)) []
  let typesByName ← config.types.foldlM (indexName "type" (·.name)) []
  let linksByID ← config.links.foldlM indexLink []
  return { streams, services, endpoints, dataConnectors, poolByName, typesByName, linksByID }

/-! ### Lookups -/

namespace RuntimeConfig

variable (r : RuntimeConfig)

def getStreamConfigByName (name : String) : Option StreamConfig := r.streams.byName.find name

def getStreamConfigByID (id : Int) : Option StreamConfig := r.streams.byID.find id

def getServiceConfigByName (name : String) : Option ServiceConfig := r.services.byName.find name

def getServiceConfigByID (id : Int) : Option ServiceConfig := r.services.byID.find id

def getEndpointConfigByID (id : Int) : Option EndpointConfig := r.endpoints.byID.find id

def getDataConnectorByID (id : Int) : Option DataConnectorConfig := r.dataConnectors.byID.find id

def getPoolByName (name : String) : Option PoolConfig := r.poolByName.find name

def getTypeByName (name : String) : Option TypeConfig := r.typesByName.find name

def getLink (fromID toID : Int) : Option LinkConfig := r.linksByID.find (fromID, toID)

end RuntimeConfig

/-! ### One index -/

/-- The index of a list whose keys are distinct. -/
def index {κ α : Type} (key : α → κ) (xs : List α) : Index κ α := xs.map (fun x => (key x, x))

section

variable {κ α : Type} {key : α → κ} {xs : List α} {x : α}

theorem keys_index : (index key xs).map Prod.fst = xs.map key := by
  simp [index]

/-- A list of distinct keys, element by element. -/
theorem nodup_map_concat :
    ((xs ++ [x]).map key).Nodup ↔ key x ∉ xs.map key ∧ (xs.map key).Nodup := by
  rw [map_append, map_singleton, nodup_append_comm]
  exact nodup_cons

variable [DecidableEq κ] {name : α → String} {what : String}

/-- `InsertUnique` extends an index unless the key is there. -/
theorem insertUnique_index {errorMsg : String} {m : Index κ α} :
    insertUnique (index key xs) (key x) x errorMsg = .ok m ↔
      key x ∉ xs.map key ∧ m = index key (xs ++ [x]) := by
  have hkey : key x ∈ xs.map key ↔ ((index key xs).find (key x)).isSome := by
    rw [← keys_index, AssocList.mem_keys_iff, Index.find]
  rw [insertUnique, hkey]
  split
  · simp [*]
  · rw [and_iff_right ‹_›, index, index, map_append, map_singleton, Except.ok.injEq]
    exact eq_comm

/-- **A lookup finds the element with the key**, and nothing when there is none. -/
theorem find_index (hnodup : (xs.map key).Nodup) {k : κ} :
    (index key xs).find k = some x ↔ x ∈ xs ∧ key x = k := by
  constructor
  · intro h
    obtain ⟨y, hy, heq⟩ := mem_map.mp (AssocList.mem_of_lookup h)
    cases heq
    exact ⟨hy, rfl⟩
  · rintro ⟨hx, rfl⟩
    exact AssocList.lookup_of_mem (keys_index ▸ hnodup) (mem_map.mpr ⟨x, hx, rfl⟩)

/-! ### The loops -/

theorem foldlM_indexName {m : Index String α} :
    xs.foldlM (indexName what name) [] = .ok m ↔ (xs.map name).Nodup ∧ m = index name xs := by
  refine foldlM_eq_ok (s := index name) (P := fun xs => (xs.map name).Nodup) nodup_nil
    (fun _ _ h => (nodup_map_concat.mp h).2) (fun seen x b hseen => ?_)
  rw [indexName, insertUnique_index, nodup_map_concat, and_iff_left hseen]

/-- The loop over the elements of one sort. -/
theorem foldlM_indexElement {id : α → Int} {m : Indexes α} :
    xs.foldlM (indexElement what name id) {} = .ok m ↔
      ((xs.map name).Nodup ∧ (xs.map id).Nodup) ∧ m = ⟨index name xs, index id xs⟩ := by
  refine foldlM_eq_ok (s := fun xs => Indexes.mk (index name xs) (index id xs))
    (P := fun xs => (xs.map name).Nodup ∧ (xs.map id).Nodup) (by simp)
    (fun _ _ h => ⟨(nodup_map_concat.mp h.1).2, (nodup_map_concat.mp h.2).2⟩) ?_
  rintro seen x b ⟨hname, hid⟩
  simp only [indexElement, bind_eq_ok, insertUnique_index, nodup_map_concat, hname, hid, and_true]
  constructor
  · rintro ⟨_, ⟨hn, rfl⟩, _, ⟨hi, rfl⟩, hb⟩
    cases hb
    exact ⟨⟨hn, hi⟩, rfl⟩
  · rintro ⟨⟨hn, hi⟩, rfl⟩
    exact ⟨_, ⟨hn, rfl⟩, _, ⟨hi, rfl⟩, rfl⟩

end

theorem LinkConfig.validate_eq_ok {link : LinkConfig} {u : Unit} :
    link.validate = .ok u ↔ ∀ g ∈ link.callSemantics, g.count = 1 := by
  cases hg : link.callSemantics with
  | none => simp [LinkConfig.validate, hg]
  | some g =>
    by_cases h : g.count = 1 <;>
      simp [LinkConfig.validate, CallSemanticsGroup.validate, Except.mapError, hg, h]

/-- The loop over the links. -/
theorem foldlM_indexLink {links : List LinkConfig} {m : Index (Int × Int) LinkConfig} :
    links.foldlM indexLink [] = .ok m ↔
      ((∀ link ∈ links, ∀ g ∈ link.callSemantics, g.count = 1) ∧ (links.map (·.key)).Nodup) ∧
        m = index (·.key) links := by
  refine foldlM_eq_ok (s := index LinkConfig.key) (P := fun links : List LinkConfig =>
    (∀ link ∈ links, ∀ g ∈ link.callSemantics, g.count = 1) ∧ (links.map (·.key)).Nodup)
    (by simp) ?_ ?_
  · intro seen x h
    exact ⟨(forall_mem_append.mp h.1).1, (nodup_map_concat.mp h.2).2⟩
  · rintro seen x b ⟨hseen, hkeys⟩
    simp only [indexLink, bind_eq_ok, LinkConfig.validate_eq_ok, insertUnique_index,
      nodup_map_concat, forall_mem_append, forall_mem_singleton]
    rw [and_iff_right hseen, and_iff_left hkeys]
    simp [and_assoc]

/-- The loop that looks for the connector of every endpoint. -/
theorem foldlM_checkConnector {byID : Index Int DataConnectorConfig} {eps : List EndpointConfig}
    {u : Unit} : eps.foldlM (checkConnector byID) () = .ok u ↔
      ∀ ep ∈ eps, ∃ dc, byID.find ep.idDataConnector = some dc ∧ dc.type = ep.type := by
  refine (foldlM_eq_ok (s := fun _ => ()) (P := fun eps : List EndpointConfig => ∀ ep ∈ eps, ∃ dc,
    byID.find ep.idDataConnector = some dc ∧ dc.type = ep.type) (by simp)
    (fun _ _ h => (forall_mem_append.mp h).1) ?_).trans (by simp)
  intro seen x b hseen
  rw [forall_mem_append, and_iff_right hseen, forall_mem_singleton, checkConnector]
  cases byID.find x.idDataConnector <;> simp

/-! ### The constructor accepts the valid configurations -/

/-- **Validity.**  Names, IDs and links are distinct, a link has one call semantics if any, and
    an endpoint has a data connector of its type. -/
structure IConfig.Valid (c : IConfig) : Prop where
  streams : (c.streams.map (·.name)).Nodup ∧ (c.streams.map (·.id)).Nodup
  services : (c.services.map (·.name)).Nodup ∧ (c.services.map (·.id)).Nodup
  endpoints : (c.endpoints.map (·.name)).Nodup ∧ (c.endpoints.map (·.id)).Nodup
  dataConnectors : (c.dataConnectors.map (·.name)).Nodup ∧ (c.dataConnectors.map (·.id)).Nodup
  pools : (c.pools.map (·.name)).Nodup
  types : (c.types.map (·.name)).Nodup
  links : (c.links.map (·.key)).Nodup
  semantics : ∀ link ∈ c.links, ∀ g ∈ link.callSemantics, g.count = 1
  references : ∀ ep ∈ c.endpoints, ∃ dc ∈ c.dataConnectors,
    dc.id = ep.idDataConnector ∧ dc.type = ep.type

/-- Every index is that of its list. -/
def IConfig.indexed (c : IConfig) : RuntimeConfig where
  streams := ⟨index (·.name) c.streams, index (·.id) c.streams⟩
  services := ⟨index (·.name) c.services, index (·.id) c.services⟩
  endpoints := ⟨index (·.name) c.endpoints, index (·.id) c.endpoints⟩
  dataConnectors := ⟨index (·.name) c.dataConnectors, index (·.id) c.dataConnectors⟩
  poolByName := index (·.name) c.pools
  typesByName := index (·.name) c.types
  linksByID := index (·.key) c.links

/-- The constructor throws exactly on what is not `Valid`. -/
theorem RuntimeConfig.make_eq_ok {c : IConfig} {r : RuntimeConfig} :
    RuntimeConfig.make c = .ok r ↔ c.Valid ∧ r = c.indexed := by
  have hconnectors (hids : (c.dataConnectors.map (·.id)).Nodup) (ep : EndpointConfig) :
      (∃ dc, (index (·.id) c.dataConnectors).find ep.idDataConnector = some dc ∧
        dc.type = ep.type) ↔
      ∃ dc ∈ c.dataConnectors, dc.id = ep.idDataConnector ∧ dc.type = ep.type := by
    simp only [find_index hids, and_assoc]
  simp only [RuntimeConfig.make, bind_eq_ok, foldlM_indexElement, foldlM_indexName,
    foldlM_indexLink, foldlM_checkConnector]
  constructor
  · rintro ⟨_, ⟨hstreams, rfl⟩, _, ⟨hservices, rfl⟩, _, ⟨hendpoints, rfl⟩, _, ⟨hids, rfl⟩, _, href,
      _, ⟨hpools, rfl⟩, _, ⟨htypes, rfl⟩, _, ⟨hlinks, rfl⟩, hr⟩
    cases hr
    exact ⟨⟨hstreams, hservices, hendpoints, hids, hpools, htypes, hlinks.2, hlinks.1,
      fun ep hep => (hconnectors hids.2 ep).mp (href ep hep)⟩, rfl⟩
  · rintro ⟨h, rfl⟩
    exact ⟨_, ⟨h.streams, rfl⟩, _, ⟨h.services, rfl⟩, _, ⟨h.endpoints, rfl⟩, _,
      ⟨h.dataConnectors, rfl⟩, (),
      fun ep hep => (hconnectors h.dataConnectors.2 ep).mpr (h.references ep hep), _,
      ⟨h.pools, rfl⟩, _, ⟨h.types, rfl⟩, _, ⟨⟨h.semantics, h.links⟩, rfl⟩, rfl⟩

/-- What the lookups are to find: the elements of the lists, by their keys. -/
structure RuntimeConfig.Finds (r : RuntimeConfig) (c : IConfig) : Prop where
  streamByName : ∀ n x, r.getStreamConfigByName n = some x ↔ x ∈ c.streams ∧ x.name = n
  streamByID : ∀ i x, r.getStreamConfigByID i = some x ↔ x ∈ c.streams ∧ x.id = i
  serviceByName : ∀ n x, r.getServiceConfigByName n = some x ↔ x ∈ c.services ∧ x.name = n
  serviceByID : ∀ i x, r.getServiceConfigByID i = some x ↔ x ∈ c.services ∧ x.id = i
  endpointByID : ∀ i x, r.getEndpointConfigByID i = some x ↔ x ∈ c.endpoints ∧ x.id = i
  connectorByID : ∀ i x, r.getDataConnectorByID i = some x ↔ x ∈ c.dataConnectors ∧ x.id = i
  poolByName : ∀ n x, r.getPoolByName n = some x ↔ x ∈ c.pools ∧ x.name = n
  typeByName : ∀ n x, r.getTypeByName n = some x ↔ x ∈ c.types ∧ x.name = n
  link : ∀ i j x, r.getLink i j = some x ↔ x ∈ c.links ∧ x.fromID = i ∧ x.toID = j

/-- **The runtime configuration.**  The constructor succeeds exactly on the valid configurations,
    and a lookup then returns the element with the name, ID or link, or nothing. -/
theorem runtimeConfig_exact (c : IConfig) :
    ((∃ r, RuntimeConfig.make c = .ok r) ↔ c.Valid) ∧
      ∀ r, RuntimeConfig.make c = .ok r → r.Finds c := by
  constructor
  · simp [RuntimeConfig.make_eq_ok]
  · intro r hr
    obtain ⟨h, rfl⟩ := RuntimeConfig.make_eq_ok.mp hr
    exact ⟨fun _ _ => find_index h.streams.1, fun _ _ => find_index h.streams.2,
      fun _ _ => find_index h.services.1, fun _ _ => find_index h.services.2,
      fun _ _ => find_index h.endpoints.2, fun _ _ => find_index h.dataConnectors.2,
      fun _ _ => find_index h.pools, fun _ _ => find_index h.types,
      fun _ _ _ => Iff.trans (find_index h.links) (by rw [LinkConfig.key, Prod.mk.injEq])⟩

example : RuntimeConfig.make { pools := [⟨"io"⟩, ⟨"io"⟩] } = .error "duplicate pool name: io" := rfl

end ServiceLib.Config
