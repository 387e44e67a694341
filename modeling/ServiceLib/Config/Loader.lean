import ServiceLib.Lib.Transition

namespace ServiceLib.Config

/-!
# Config loader — state and steps

`ConfigLoader` builds a configuration from a base file and an override file, publishes it in
its own `state_`, and polls the override file for changes.  `ServicelibRuntimeComponent` also
publishes it process-wide, in `RuntimeConfigRegistry`.

Log lines and the two reload counters influence none of this and are left out.
-/

/-- `ConfigLoader::Paths`. -/
structure Paths where
  configPath : String
  overridePath : Option String
  deriving DecidableEq, Repr

/-- Whether `Start` polls the override file. -/
def Paths.watched (p : Paths) : Bool := p.configPath != "" && p.overridePath.isSome

/-- Why a candidate is rejected. -/
inductive LoadError
  /-- The file cannot be read. -/
  | missing
  /-- Malformed YAML, or a reference that cannot be substituted. -/
  | parse
  /-- The generated adapter rejects the values. -/
  | adapt
  /-- The `RuntimeConfig` constructor: a duplicate name or id, or a failed validation. -/
  | index
  /-- An allocation failed. -/
  | resource
  deriving DecidableEq, Repr

/-- The functions a load is composed of.  `C` is the contents of a file, `V` a YAML value, `K`
    the generated `ConcreteConfig` and `R` the `RuntimeConfig`. -/
structure Pipeline (C V K R : Type) where
  /-- `ReadAndFlatten`, on the contents it has read. -/
  flatten : C → Except LoadError V
  /-- `DeepMerge`. -/
  deepMerge : V → V → V
  /-- `ConfigAdapter::Make`. -/
  make : K
  /-- `ConfigAdapter::Apply`. -/
  apply : V → K → Except LoadError K
  /-- `ConfigAdapter::Finalize`. -/
  finalize : K → Except LoadError K
  /-- The `RuntimeConfig` constructor. -/
  index : K → Except LoadError R

/-- `LoadedConfig`, with the override contents it was built from. -/
structure Loaded (C R : Type) where
  override : Option C
  runtimeConfig : R
  deriving DecidableEq, Repr

section Model

variable {C V K R : Type}

/-- `FromFile` throws when there is no file. -/
def readFile (contents : Option C) : Except LoadError C :=
  match contents with
  | some c => .ok c
  | none => .error .missing

/-- `LoadOnce` and the construction of the `LoadedConfig`, for the given contents of the base
    and the override file. -/
def loadOnce (P : Pipeline C V K R) (paths : Paths) (base override : Option C) :
    Except LoadError (Loaded C R) :=
  if paths.configPath = "" then do
    let config ← P.finalize P.make
    let runtimeConfig ← P.index config
    .ok ⟨none, runtimeConfig⟩
  else do
    let flattened ← P.flatten (← readFile base)
    if paths.overridePath.isSome then
      let c ← readFile override
      let config ← P.apply (P.deepMerge flattened (← P.flatten c)) P.make
      let runtimeConfig ← P.index (← P.finalize config)
      .ok ⟨some c, runtimeConfig⟩
    else
      let config ← P.apply flattened P.make
      let runtimeConfig ← P.index (← P.finalize config)
      .ok ⟨none, runtimeConfig⟩

/-! ### State -/

/-- The override file on disk. -/
structure File (C : Type) where
  mtime : Int
  contents : C
  deriving DecidableEq, Repr

/-- Which function is loading. -/
inductive Mode
  | load
  | poll
  deriving DecidableEq, Repr

/-- `Load` and `PollOnce`. -/
inductive LoaderPc (C R : Type)
  | idle
  /-- `HasOverrideChanged`: about to compare the modification time. -/
  | changeStat
  /-- About to compare the contents. -/
  | changeRead
  /-- `LoadOnce`: about to read the files. -/
  | reading (m : Mode)
  /-- Has read the files; about to build the candidate. -/
  | building (m : Mode) (override : Option C)
  /-- About to store the candidate into `state_`. -/
  | assigning (m : Mode) (loaded : Loaded C R)
  /-- `RecordWatchedMtime`: about to read the modification time. -/
  | recordStat (m : Mode) (loaded : Loaded C R)
  /-- About to read the contents. -/
  | recordRead (m : Mode) (loaded : Loaded C R)
  /-- `initializeServiceMetrics`. -/
  | metrics (loaded : Loaded C R)
  /-- About to publish the candidate in `RuntimeConfigRegistry`. -/
  | publishing (m : Mode) (loaded : Loaded C R)
  /-- About to call the service callback. -/
  | calling (loaded : Loaded C R)
  deriving DecidableEq, Repr

def LoaderPc.isIdle {C R : Type} : LoaderPc C R → Bool
  | .idle => true
  | _ => false

/-- What the component hands to `Start`: publish, or publish and call the service's own
    callback. -/
inductive ReloadCallback
  | publish
  | publishThen
  deriving DecidableEq, Repr

/-- A loader, the file it watches and the process-wide snapshot. -/
structure State (C R : Type) where
  file : Option (File C)
  /-- `state_`. -/
  state : Option (Loaded C R)
  /-- `RuntimeConfigRegistry::current_`. -/
  registry : Option (Loaded C R)
  lastOverrideMtime : Option Int
  lastOverrideContents : Option C
  /-- The callback of the running poller. -/
  onReload : Option ReloadCallback
  pc : LoaderPc C R
  deriving DecidableEq, Repr

/-- A loader before its first load. -/
def State.init : State C R where
  file := none
  state := none
  registry := none
  lastOverrideMtime := none
  lastOverrideContents := none
  onReload := none
  pc := .idle

/-! ### Steps -/

/-- How a step that can fail goes. -/
inductive Io
  | ok
  /-- A file cannot be accessed. -/
  | fails
  /-- An exception. -/
  | throws
  deriving DecidableEq, Repr

namespace State

/-- What a read of the override file returns. -/
def contents (s : State C R) (io : Io) : Option C :=
  if io = .ok then s.file.map (·.contents) else none

/-- What `last_write_time` returns. -/
def mtime (s : State C R) (io : Io) : Option Int :=
  if io = .ok then s.file.map (·.mtime) else none

/-- Behind `RecordWatchedMtime`. -/
def recorded (m : Mode) (loaded : Loaded C R) : LoaderPc C R :=
  match m with
  | .load => .metrics loaded
  | .poll => .publishing .poll loaded

variable (P : Pipeline C V K R) (paths : Paths) (base : Option C)

/-- One step of `Load` or `PollOnce`.  A failed candidate ends the call with everything that
    was published before still in place. -/
def loaderStep [DecidableEq C] (s : State C R) (io : Io) : Option (State C R) :=
  match s.pc with
  | .idle => none
  | .changeStat =>
    match s.mtime io with
    | none => some { s with pc := .idle }
    | some mtime =>
      if s.lastOverrideMtime ≠ some mtime then some { s with pc := .reading .poll }
      else some { s with pc := .changeRead }
  | .changeRead =>
    if s.contents io ≠ none ∧ s.contents io ≠ s.lastOverrideContents then
      some { s with pc := .reading .poll }
    else some { s with pc := .idle }
  | .reading m => some { s with pc := .building m (s.contents io) }
  | .building m override =>
    match if io = .ok then loadOnce P paths base override else .error .resource with
    | .error _ => some { s with pc := .idle }
    | .ok loaded =>
      match m with
      | .load => some { s with pc := .recordStat .load loaded }
      | .poll => some { s with pc := .assigning .poll loaded }
  | .assigning m loaded =>
    if io ≠ .ok then some { s with pc := .idle }
    else match m with
      | .load => some { s with state := some loaded, pc := .publishing .load loaded }
      | .poll => some { s with state := some loaded, pc := .recordStat .poll loaded }
  | .recordStat m loaded =>
    if paths.overridePath.isNone then some { s with pc := recorded m loaded }
    else match s.mtime io with
      | none => some { s with pc := recorded m loaded }
      | some mtime => some { s with lastOverrideMtime := some mtime, pc := .recordRead m loaded }
  | .recordRead m loaded =>
    if io = .throws then some { s with pc := .idle }
    else some { s with lastOverrideContents := s.contents io, pc := recorded m loaded }
  | .metrics loaded =>
    if io = .ok then some { s with pc := .assigning .load loaded } else some { s with pc := .idle }
  | .publishing m loaded =>
    match m, s.onReload with
    | .poll, some .publishThen => some { s with registry := some loaded, pc := .calling loaded }
    | _, _ => some { s with registry := some loaded, pc := .idle }
  -- A failure of the callback is logged.
  | .calling _ => some { s with pc := .idle }

end State

/-- Who moves next. -/
inductive Action (C : Type)
  /-- Somebody replaces the override file; the new modification time is arbitrary. -/
  | write (file : File C)
  | remove
  | load
  /-- `Start`, by the component or through `SetReloadCallback`. -/
  | start (onReload : ReloadCallback)
  | poll
  | loader (io : Io)
  deriving DecidableEq, Repr

variable [DecidableEq C] (P : Pipeline C V K R) (paths : Paths) (base : Option C)

/-- One step of the loader or of its surroundings. -/
def step (s : State C R) : Action C → Option (State C R)
  | .write file => some { s with file := some file }
  | .remove => some { s with file := none }
  | .load => if s.pc.isIdle then some { s with pc := .reading .load } else none
  | .start onReload =>
    -- `Start` waits for a poll in progress before it replaces the callback.
    if s.pc.isIdle then
      some (if paths.watched then { s with onReload := some onReload } else s)
    else none
  | .poll => if s.pc.isIdle ∧ s.onReload ≠ none then some { s with pc := .changeStat } else none
  | .loader io => s.loaderStep P paths base io

/-- The loader, from its construction on. -/
def system : System (State C R) (Action C) where
  init := State.init
  step := step P paths base

end Model

end ServiceLib.Config
