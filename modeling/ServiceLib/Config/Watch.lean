import ServiceLib.Config.Reload
import ServiceLib.Lib.CheckedLoop

namespace ServiceLib.Config

/-!
# Config loader — watching the override file

A load reads the override file, and `RecordWatchedMtime` reads it again to remember what was
loaded.  Nothing ties the two reads together, so a write between them is recorded,
not loaded, and never noticed again (`watch_lost_update`).
-/

open State

variable {C V K R : Type} {P : Pipeline C V K R} {paths : Paths} {base : Option C}

/-- A watched load reads the override file and was built from its contents. -/
theorem loadOnce_override (hw : paths.watched) {override : Option C} {l : Loaded C R}
    (h : loadOnce P paths base override = .ok l) : override ≠ none ∧ l.override = override := by
  simp only [Paths.watched, Bool.and_eq_true, bne_iff_ne, ne_eq] at hw
  rw [loadOnce, if_neg hw.1] at h
  simp only [if_pos hw.2, bind_eq_ok] at h
  obtain ⟨_, _, _, _, c, hread, _, _, _, _, _, _, _, _, hl⟩ := h
  cases override with
  | none => cases hread
  | some c =>
    cases hread
    cases hl
    exact ⟨nofun, rfl⟩

/-! ### Undisturbed runs -/

/-- The loader has read the override file and not recorded it yet. -/
def LoaderPc.inWindow : LoaderPc C R → Bool
  | .building _ _ | .assigning .poll _ | .recordStat _ _ | .recordRead _ _ => true
  | _ => false

/-- The loader is about to record the modification time. -/
def LoaderPc.stats : LoaderPc C R → Bool
  | .recordStat _ _ => true
  | _ => false

/-- The file stays as it is while a load is in its window; the record is made; and a load that
    has made its record goes on to publish. -/
def Undisturbed (s : State C R) : Action C → Prop
  | .write _ | .remove => s.pc.inWindow = false
  | .loader io => s.pc.survives io ∧ (s.pc.stats → io = .ok)
  | _ => True

instance (s : State C R) : (a : Action C) → Decidable (Undisturbed s a)
  | .write _ | .remove => inferInstanceAs (Decidable (s.pc.inWindow = false))
  | .loader _ => inferInstanceAs (Decidable (_ ∧ (_ → _)))
  | .load | .start _ | .poll => inferInstanceAs (Decidable True)

/-! ### The invariant -/

/-- The configuration the recorded contents belong to: the one a load is about to publish, or
    the published one. -/
def State.recordedFor (s : State C R) : Option (Loaded C R) :=
  match s.pc with
  | .metrics l | .assigning .load l => some l
  | _ => s.state

/-- A poll has published its candidate and not recorded it yet. -/
def LoaderPc.unrecorded : LoaderPc C R → Bool
  | .recordStat .poll _ | .recordRead .poll _ => true
  | _ => false

/-- The candidate whose contents the file still has. -/
def LoaderPc.unwatched : LoaderPc C R → Option (Loaded C R)
  | .assigning .poll l | .recordStat _ l | .recordRead _ l => some l
  | _ => none

/-- What holds between the steps of an undisturbed run. -/
structure WatchInv (s : State C R) : Prop where
  read : ∀ m c, s.pc = .building m (some c) → ∃ f, s.file = some f ∧ f.contents = c
  fresh : ∀ l, s.pc.unwatched = some l → ∃ f, s.file = some f ∧ l.override = some f.contents
  synced : s.pc.unrecorded = false → ∀ c, s.lastOverrideContents = some c →
    ∃ l, s.recordedFor = some l ∧ l.override = some c

variable {s s' : State C R} {pc : LoaderPc C R} {io : Io}

/-- What the recorded contents belong to, at a known place. -/
theorem WatchInv.syncedAt (h : WatchInv s) (hpc : s.pc = pc)
    {x : Option (Loaded C R)} (hrec : pc.unrecorded = false := by rfl)
    (hfor : { s with pc := pc }.recordedFor = x := by rfl) (c : C)
    (hc : s.lastOverrideContents = some c) : ∃ l, x = some l ∧ l.override = some c := by
  subst hpc hfor
  exact h.synced hrec c hc

/-- A step to a place outside the window at which the records belong to `state_`. -/
theorem WatchInv.of_quiet (h : WatchInv s) (hpc : s.pc = pc)
    (hold : pc.unrecorded = false ∧ { s with pc := pc }.recordedFor = s.state := by
      exact ⟨rfl, rfl⟩)
    (hnew : s'.pc.unwatched = none ∧ s'.recordedFor = s'.state := by exact ⟨rfl, rfl⟩)
    (hread : ∀ m c, s'.pc ≠ .building m (some c) := by simp)
    (hstate : s'.state = s.state := by rfl)
    (hlast : s'.lastOverrideContents = s.lastOverrideContents := by rfl) : WatchInv s' := by
  refine ⟨fun m c hb => absurd hb (hread m c), fun l hl => ?_, fun _ c hc => ?_⟩
  · simp [hnew.1] at hl
  · rw [hnew.2, hstate]
    exact h.syncedAt hpc hold.1 hold.2 c (hlast ▸ hc)

theorem contents_eq_some {c : C} (h : s.contents io = some c) :
    ∃ f, s.file = some f ∧ f.contents = c := by
  unfold contents at h
  split at h
  · exact Option.map_eq_some_iff.mp h
  · cases h

/-- A step of the loader, with no write between its two reads. -/
theorem loaderMove_watchInv (hw : paths.watched) (hp : PublishInv P paths base s)
    (h : WatchInv s) (hok : Undisturbed s (.loader io)) (m : LoaderMove P paths base s io s') :
    WatchInv s' := by
  cases m with
  | quit hpc =>
    cases hs : s.pc with
    | changeStat | changeRead | building | calling => exact h.of_quiet hs
    | assigning m l =>
      cases m with
      | load => rw [hs] at hpc; cases hpc
      | poll => exact h.of_quiet hs
    | idle | reading | recordStat | recordRead | metrics | publishing =>
      rw [hs] at hpc
      cases hpc
  | «break» hio =>
    simp [hok.1] at hio
  | unchanged hpc | publish m loaded hpc | publishThen loaded hpc =>
    exact h.of_quiet hpc
  | changed hpc =>
    rcases hpc with hpc | hpc <;> exact h.of_quiet hpc
  | read m hpc =>
    refine ⟨fun n c hb => ?_, nofun, fun _ => h.syncedAt hpc⟩
    injection hb with _ hc
    exact contents_eq_some hc
  | buildLoad override loaded hpc hio hload | buildPoll override loaded hpc hio hload =>
    refine ⟨nofun, fun l hl => ?_, fun _ => h.syncedAt hpc⟩
    cases hl
    obtain ⟨hsome, hover⟩ := loadOnce_override hw hload
    cases override with
    | none => exact absurd rfl hsome
    | some c =>
      obtain ⟨f, hf, hc⟩ := h.read _ c hpc
      exact ⟨f, hf, by rw [hover, hc]⟩
  | assignLoad loaded hpc | measured loaded hpc =>
    exact ⟨nofun, nofun, fun _ => h.syncedAt hpc⟩
  | assignPoll loaded hpc =>
    refine ⟨nofun, fun l hl => h.fresh l (by rw [hpc]; exact hl), nofun⟩
  | skip m loaded hpc hskip =>
    -- The file is there, and its modification time can be read.
    have hio := hok.2 (by rw [hpc]; rfl)
    obtain ⟨f, hf, -⟩ := h.fresh loaded (by rw [hpc]; rfl)
    rcases hskip with hnone | hnone
    · simp [Paths.watched, hnone] at hw
    · simp [mtime, hio, hf] at hnone
  | stat m loaded mtime hpc hm =>
    refine ⟨nofun, fun l hl => h.fresh l (by rw [hpc]; exact hl), fun hrec => ?_⟩
    cases m with
    | poll => cases hrec
    | load => exact h.syncedAt hpc
  | record m loaded hpc =>
    -- The second read sees the contents of the first.
    obtain ⟨f, hf, hover⟩ := h.fresh loaded (by rw [hpc]; rfl)
    have hsame : ∀ c, s.contents io = some c → loaded.override = some c := by
      intro c hc
      obtain ⟨g, hg, rfl⟩ := contents_eq_some hc
      rw [hf] at hg
      cases hg
      exact hover
    cases m with
    | load => exact ⟨nofun, nofun, fun _ c hc => ⟨loaded, rfl, hsame c hc⟩⟩
    | poll =>
      have hstate := hp.assigned loaded (by rw [hpc]; rfl)
      exact ⟨nofun, nofun, fun _ c hc => ⟨loaded, hstate, hsame c hc⟩⟩

variable [DecidableEq C]

/-- Every step that does not disturb a load. -/
theorem step_watchInv (hw : paths.watched) {a : Action C} (hp : PublishInv P paths base s)
    (h : WatchInv s) (hok : Undisturbed s a) (hs : step P paths base s a = some s') :
    WatchInv s' := by
  cases move_of_step hs with
  | file a f ha =>
    have hout : s.pc.inWindow = false := by
      rcases ha with rfl | ⟨g, rfl⟩
      · exact hok
      · exact hok
    refine ⟨fun m c hpc => ?_, fun l hl => ?_, h.synced⟩
    · have hb : s.pc = .building m (some c) := hpc
      rw [hb] at hout
      cases hout
    · have hu : s.pc.unwatched = some l := hl
      cases hpc : s.pc with
      | assigning m l =>
        cases m with
        | load => rw [hpc] at hu; cases hu
        | poll => rw [hpc] at hout; cases hout
      | recordStat | recordRead => rw [hpc] at hout; cases hout
      | idle | changeStat | changeRead | reading | building | metrics | publishing | calling =>
        rw [hpc] at hu
        cases hu
  | load hpc | poll hpc =>
    exact h.of_quiet hpc
  | start cb r hpc => exact { h with }
  | loader io _ m => exact loaderMove_watchInv hw hp h hok m

omit [DecidableEq C] in
theorem watchInv_init : WatchInv (init : State C R) where
  read := nofun
  fresh := fun _ h => nomatch h
  synced := fun _ _ h => nomatch h

theorem reachable_watchInv (hw : paths.watched)
    (hr : (system P paths base).ReachableIf Undisturbed s) : WatchInv s := by
  refine hr.invariant watchInv_init ?_
  intro u a u' hu hi hok hs
  exact step_watchInv hw (reachable_publishInv hu.reachable) hi hok hs

/-! ### Main results -/

/-- A poll notices a file that differs from the records. -/
theorem poll_notices {f : File C} (hidle : s.pc = .idle) (hrun : s.onReload ≠ none)
    (hfile : s.file = some f)
    (hdiff : ¬ (s.lastOverrideMtime = some f.mtime ∧ s.lastOverrideContents = some f.contents)) :
    ∃ t, ((system P paths base).runFrom s [.poll, .loader .ok] = some t ∨
      (system P paths base).runFrom s [.poll, .loader .ok, .loader .ok] = some t) ∧
      t.pc = .reading .poll := by
  by_cases hm : s.lastOverrideMtime = some f.mtime
  · have hc : ¬ (some f.contents = s.lastOverrideContents) := fun hc => hdiff ⟨hm, hc.symm⟩
    refine ⟨{ s with pc := .reading .poll }, .inr ?_, rfl⟩
    simp [System.runFrom, system, step, loaderStep, mtime, contents, hidle,
      LoaderPc.isIdle, hrun, hfile, hm, hc]
  · refine ⟨{ s with pc := .reading .poll }, .inl ?_, rfl⟩
    simp [System.runFrom, system, step, loaderStep, mtime, hidle, LoaderPc.isIdle, hrun,
      hfile, hm]

/-- **No lost update.**  In every undisturbed run of a loader that watches an override file,
    between polls: if the recorded modification time and contents are those of the file, the
    published configuration was built from exactly these contents; and if it was built from
    other contents, the next poll notices. -/
theorem watch_no_lost_update (hw : paths.watched = true) {s : State C R}
    (hr : (system P paths base).ReachableIf Undisturbed s) (hidle : s.pc = .idle) {f : File C}
    (hfile : s.file = some f) :
    (s.lastOverrideMtime = some f.mtime → s.lastOverrideContents = some f.contents →
      ∃ l, s.state = some l ∧ l.override = some f.contents ∧
        loadOnce P paths base (some f.contents) = .ok l) ∧
    (s.onReload ≠ none → s.state.bind (·.override) ≠ some f.contents →
      ∃ t, ((system P paths base).runFrom s [.poll, .loader .ok] = some t ∨
        (system P paths base).runFrom s [.poll, .loader .ok, .loader .ok] = some t) ∧
        t.pc = .reading .poll) := by
  have hinv := reachable_watchInv hw hr
  have hsync := hinv.syncedAt hidle (x := s.state)
  constructor
  · intro _ hc
    obtain ⟨l, hl, hover⟩ := hsync f.contents hc
    obtain ⟨override, hload⟩ := state_built hr.reachable l hl
    have hfrom := (loadOnce_override hw hload).2
    rw [hover] at hfrom
    exact ⟨l, hl, hover, hfrom ▸ hload⟩
  · intro hrun hne
    refine poll_notices hidle hrun hfile (fun hrec => ?_)
    obtain ⟨l, hl, hover⟩ := hsync f.contents hrec.2
    rw [hl] at hne
    exact hne hover

/-- The result applies after a reload that nobody disturbed. -/
theorem watch_no_lost_update_reloaded : ∃ s : State Nat Nat,
    (system numberPipeline bothPaths (some 7)).ReachableIf Undisturbed s ∧ s.pc = .idle ∧
    s.file = some ⟨2, 2⟩ ∧ ∃ l, s.state = some l ∧ l.override = some 2 ∧
      loadOnce numberPipeline bothPaths (some 7) (some 2) = .ok l := by
  obtain ⟨s, hr, hidle, hfile, hm, hc⟩ := System.exists_reachableIf_of_run
    (system numberPipeline bothPaths (some 7)) Undisturbed (reloadSchedule ++ [.loader .throws])
    (fun s => s.pc = .idle ∧ s.file = some ⟨2, 2⟩ ∧ s.lastOverrideMtime = some 2 ∧
      s.lastOverrideContents = some 2) (by decide +kernel)
  exact ⟨s, hr, hidle, hfile, (watch_no_lost_update (by decide) hr hidle hfile).1 hm hc⟩

/-- A poll reads contents 2; contents 3 are written before it has recorded what it read. -/
def lostUpdateSchedule : List (Action Nat) :=
  [componentSchedule, [.write ⟨2, 2⟩, .poll], List.replicate 2 (.loader .ok), [.write ⟨3, 3⟩],
    List.replicate 6 (.loader .ok)].flatten

/-- **An update is lost.**  The loader is idle and has recorded the file as it is on disk, but
    serves the contents before it; the next poll sees no change and leaves everything as it
    is. -/
theorem watch_lost_update : ∃ s : State Nat Nat,
    (system numberPipeline bothPaths (some 7)).Reachable s ∧ s.pc = .idle ∧
    s.file = some ⟨3, 3⟩ ∧ s.lastOverrideMtime = some 3 ∧ s.lastOverrideContents = some 3 ∧
    s.state = some ⟨some 2, 2⟩ ∧
    (system numberPipeline bothPaths (some 7)).runFrom s [.poll, .loader .ok, .loader .ok] =
      some s := by
  obtain ⟨s, hr, hp⟩ := (system numberPipeline bothPaths (some 7)).exists_reachable_of_run
    lostUpdateSchedule
    (fun s => s.pc = .idle ∧ s.file = some ⟨3, 3⟩ ∧ s.lastOverrideMtime = some 3 ∧
      s.lastOverrideContents = some 3 ∧ s.state = some ⟨some 2, 2⟩ ∧
      (system numberPipeline bothPaths (some 7)).runFrom s [.poll, .loader .ok, .loader .ok] =
        some s) (by decide +kernel)
  exact ⟨s, hr, hp⟩

end ServiceLib.Config
