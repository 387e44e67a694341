import ServiceLib.Config.Loader

namespace ServiceLib.Config

/-!
# Config loader — what one step can do

The inversion of `loaderStep`: each move with the place it starts from, its guard and its
effect.
-/

variable {C V K R : Type} [DecidableEq C] {P : Pipeline C V K R} {paths : Paths} {base : Option C}
  {s s' : State C R}

/-- The places at which a call may end early without having recorded anything it does not
    publish. -/
def LoaderPc.quits : LoaderPc C R → Bool
  | .changeStat | .changeRead | .building _ _ | .assigning .poll _ | .calling _ => true
  | _ => false

/-- Whether a call that has begun its record goes on. -/
def LoaderPc.survives : LoaderPc C R → Io → Bool
  | .recordRead _ _, io => io != .throws
  | .metrics _, io | .assigning .load _, io => io == .ok
  | _, _ => true

/-- The moves of `Load` and `PollOnce`. -/
@[grind intro] inductive LoaderMove (P : Pipeline C V K R) (paths : Paths) (base : Option C)
    (s : State C R)
    (io : Io) : State C R → Prop
  | quit (hpc : s.pc.quits) : LoaderMove P paths base s io { s with pc := .idle }
  | break (hio : s.pc.survives io = false) :
      LoaderMove P paths base s io { s with pc := .idle }
  | unchanged (hpc : s.pc = .changeStat) :
      LoaderMove P paths base s io { s with pc := .changeRead }
  | changed (hpc : s.pc = .changeStat ∨ s.pc = .changeRead) :
      LoaderMove P paths base s io { s with pc := .reading .poll }
  | read (m : Mode) (hpc : s.pc = .reading m) :
      LoaderMove P paths base s io { s with pc := .building m (s.contents io) }
  | buildLoad (override : Option C) (loaded : Loaded C R) (hpc : s.pc = .building .load override)
      (hio : io = .ok) (hload : loadOnce P paths base override = .ok loaded) :
      LoaderMove P paths base s io { s with pc := .recordStat .load loaded }
  | buildPoll (override : Option C) (loaded : Loaded C R) (hpc : s.pc = .building .poll override)
      (hio : io = .ok) (hload : loadOnce P paths base override = .ok loaded) :
      LoaderMove P paths base s io { s with pc := .assigning .poll loaded }
  | assignLoad (loaded : Loaded C R) (hpc : s.pc = .assigning .load loaded) :
      LoaderMove P paths base s io
        { s with state := some loaded, pc := .publishing .load loaded }
  | assignPoll (loaded : Loaded C R) (hpc : s.pc = .assigning .poll loaded) :
      LoaderMove P paths base s io { s with state := some loaded, pc := .recordStat .poll loaded }
  | skip (m : Mode) (loaded : Loaded C R) (hpc : s.pc = .recordStat m loaded)
      (hskip : paths.overridePath = none ∨ s.mtime io = none) :
      LoaderMove P paths base s io { s with pc := State.recorded m loaded }
  | stat (m : Mode) (loaded : Loaded C R) (mtime : Int) (hpc : s.pc = .recordStat m loaded)
      (hm : s.mtime io = some mtime) :
      LoaderMove P paths base s io
        { s with lastOverrideMtime := some mtime, pc := .recordRead m loaded }
  | record (m : Mode) (loaded : Loaded C R) (hpc : s.pc = .recordRead m loaded) :
      LoaderMove P paths base s io
        { s with lastOverrideContents := s.contents io, pc := State.recorded m loaded }
  | measured (loaded : Loaded C R) (hpc : s.pc = .metrics loaded) :
      LoaderMove P paths base s io { s with pc := .assigning .load loaded }
  | publish (m : Mode) (loaded : Loaded C R) (hpc : s.pc = .publishing m loaded) :
      LoaderMove P paths base s io { s with registry := some loaded, pc := .idle }
  | publishThen (loaded : Loaded C R) (hpc : s.pc = .publishing .poll loaded) :
      LoaderMove P paths base s io { s with registry := some loaded, pc := .calling loaded }

/-- A step of the loader is one of its moves. -/
theorem loaderMove_of_loaderStep {io : Io}
    (h : s.loaderStep P paths base io = some s') : LoaderMove P paths base s io s' := by
  unfold State.loaderStep at h
  cases hpc : s.pc with
  | assigning m loaded => cases m <;> grind [LoaderPc.quits, LoaderPc.survives]
  | _ => grind [LoaderPc.quits, LoaderPc.survives, Option.isNone_iff_eq_none]

/-- What one step of the system can do. -/
@[grind intro] inductive Move (P : Pipeline C V K R) (paths : Paths) (base : Option C)
    (s : State C R) :
    Action C → State C R → Prop
  | file (a : Action C) (f : Option (File C)) (ha : a = .remove ∨ ∃ g, a = .write g) :
      Move P paths base s a { s with file := f }
  | load (hpc : s.pc = .idle) : Move P paths base s .load { s with pc := .reading .load }
  | start (cb : ReloadCallback) (r : Option ReloadCallback) (hpc : s.pc = .idle) :
      Move P paths base s (.start cb) { s with onReload := r }
  | poll (hpc : s.pc = .idle) : Move P paths base s .poll { s with pc := .changeStat }
  | loader (io : Io) (s' : State C R) (m : LoaderMove P paths base s io s') :
      Move P paths base s (.loader io) s'

omit [DecidableEq C] in
theorem eq_idle_of_isIdle {pc : LoaderPc C R} (h : pc.isIdle) : pc = .idle := by
  cases pc <;> first | rfl | cases h

/-- Every step is one of the moves. -/
theorem move_of_step {a : Action C} (hs : step P paths base s a = some s') :
    Move P paths base s a s' := by
  cases a with
  | start cb =>
    simp only [step] at hs
    split at hs <;> cases hs
    split
    · exact .start cb _ (eq_idle_of_isIdle ‹_›)
    · exact .start cb s.onReload (eq_idle_of_isIdle ‹_›)
  | loader io => exact .loader io s' (loaderMove_of_loaderStep hs)
  | _ => grind [step, eq_idle_of_isIdle]

end ServiceLib.Config
