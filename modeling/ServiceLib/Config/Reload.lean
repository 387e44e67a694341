import ServiceLib.Config.Moves

namespace ServiceLib.Config

/-!
# Config loader — publication

When the loader's own state and the process-wide snapshot change (`reload_publication`): a callback
that throws does not take the new configuration back (`reload_callback_fails`).
-/

variable {C V K R : Type} {P : Pipeline C V K R} {paths : Paths} {base : Option C}

/-! ### Candidates in flight -/

/-- The candidate the loader holds. -/
def LoaderPc.candidate : LoaderPc C R → Option (Loaded C R)
  | .assigning _ l | .recordStat _ l | .recordRead _ l | .metrics l | .publishing _ l
  | .calling l => some l
  | _ => none

/-- The candidate the loader has stored into `state_` in this call. -/
def LoaderPc.assigned : LoaderPc C R → Option (Loaded C R)
  | .recordStat .poll l | .recordRead .poll l | .publishing _ l | .calling l => some l
  | _ => none

/-- The candidate that was published process-wide in this call. -/
def LoaderPc.published : LoaderPc C R → Option (Loaded C R)
  | .calling l => some l
  | _ => none

/-- Parsing, adaptation, indexing and validation succeeded for some contents of the override
    file. -/
def Built (P : Pipeline C V K R) (paths : Paths) (base : Option C) (l : Loaded C R) : Prop :=
  ∃ override, loadOnce P paths base override = .ok l

/-- What holds between the steps of the loader. -/
structure PublishInv (P : Pipeline C V K R) (paths : Paths) (base : Option C) (s : State C R) :
    Prop where
  built : ∀ l, s.pc.candidate = some l → Built P paths base l
  assigned : ∀ l, s.pc.assigned = some l → s.state = some l
  published : ∀ l, s.pc.published = some l → s.registry = some l

variable {s s' : State C R} {a : Action C}

/-- A step to a place with no candidate. -/
theorem PublishInv.of_none (hpc : s.pc.candidate = none) : PublishInv P paths base s := by
  have hassigned : s.pc.assigned = none := by
    cases h : s.pc <;> rw [h] at hpc <;> first | rfl | cases hpc
  have hpublished : s.pc.published = none := by
    cases h : s.pc <;> rw [h] at hpc <;> first | rfl | cases hpc
  refine ⟨fun l hl => ?_, fun l hl => ?_, fun l hl => ?_⟩
  · simp [hpc] at hl
  · simp [hassigned] at hl
  · simp [hpublished] at hl

theorem candidate_recorded (m : Mode) (l : Loaded C R) :
    (State.recorded m l).candidate = some l := by
  cases m <;> rfl

theorem published_recorded (m : Mode) (l : Loaded C R) : (State.recorded m l).published = none := by
  cases m <;> rfl

/-- Behind the record of a poll the candidate is still the one in `state_`; a load stores it
    later. -/
theorem assigned_recorded (m : Mode) (l x : Loaded C R)
    (h : (State.recorded m l).assigned = some x) : m = .poll ∧ x = l := by
  cases m with
  | load => cases h
  | poll => cases h; exact ⟨rfl, rfl⟩

/-- A step of the loader keeps what is published in step with what it holds. -/
theorem loaderMove_publishInv {io : Io} (h : PublishInv P paths base s)
    (m : LoaderMove P paths base s io s') : PublishInv P paths base s' := by
  cases m with
  | quit | «break» | unchanged | changed | read | publish => exact .of_none rfl
  | buildLoad override loaded hpc hio hload | buildPoll override loaded hpc hio hload =>
    refine ⟨fun l hl => ?_, nofun, nofun⟩
    cases hl
    exact ⟨override, hload⟩
  | assignLoad loaded hpc | assignPoll loaded hpc =>
    have hbuilt := h.built loaded (by rw [hpc]; rfl)
    refine ⟨fun l hl => ?_, fun l hl => ?_, nofun⟩
    · cases hl
      exact hbuilt
    · exact hl
  | skip m loaded hpc _ | record m loaded hpc =>
    have hbuilt := h.built loaded (by rw [hpc]; rfl)
    refine ⟨fun l hl => ?_, fun l hl => ?_, fun l hl => ?_⟩
    · rw [candidate_recorded] at hl
      cases hl
      exact hbuilt
    · obtain ⟨rfl, rfl⟩ := assigned_recorded m loaded l hl
      exact h.assigned l (by rw [hpc]; rfl)
    · simp [published_recorded] at hl
  | stat m loaded mtime hpc hm =>
    have hbuilt := h.built loaded (by rw [hpc]; rfl)
    refine ⟨fun l hl => ?_, fun l hl => ?_, nofun⟩
    · cases hl
      exact hbuilt
    · cases m with
      | load => cases hl
      | poll => exact h.assigned l (by rw [hpc]; exact hl)
  | measured loaded hpc =>
    have hbuilt := h.built loaded (by rw [hpc]; rfl)
    refine ⟨fun l hl => ?_, nofun, nofun⟩
    cases hl
    exact hbuilt
  | publishThen loaded hpc =>
    have hbuilt := h.built loaded (by rw [hpc]; rfl)
    have hstate := h.assigned loaded (by rw [hpc]; rfl)
    refine ⟨fun l hl => ?_, fun l hl => ?_, fun l hl => hl⟩
    · cases hl
      exact hbuilt
    · cases hl
      exact hstate

variable [DecidableEq C]

theorem step_publishInv (h : PublishInv P paths base s) (hs : step P paths base s a = some s') :
    PublishInv P paths base s' := by
  cases move_of_step hs with
  | file | start cb r hpc => exact { h with }
  | load | poll => exact .of_none rfl
  | loader io _ m => exact loaderMove_publishInv h m

theorem reachable_publishInv (hr : (system P paths base).Reachable s) : PublishInv P paths base s :=
  hr.invariant (.of_none rfl) (fun _ hi _ hs => step_publishInv hi hs)

/-! ### The publication points -/

/-- `state_` is stored to in one place of the code. -/
theorem assigning_of_state_ne (hs : step P paths base s a = some s') (hne : s'.state ≠ s.state) :
    ∃ m l, s.pc = .assigning m l ∧ s'.state = some l := by
  cases move_of_step hs with
  | file | load | start | poll => exact absurd rfl hne
  | loader io _ mv =>
    cases mv with
    | assignLoad l hpc => exact ⟨.load, l, hpc, rfl⟩
    | assignPoll l hpc => exact ⟨.poll, l, hpc, rfl⟩
    | _ => exact absurd rfl hne

/-- So is the process-wide snapshot. -/
theorem publishing_of_registry_ne (hs : step P paths base s a = some s')
    (hne : s'.registry ≠ s.registry) : ∃ m l, s.pc = .publishing m l ∧ s'.registry = some l := by
  cases move_of_step hs with
  | file | load | start | poll => exact absurd rfl hne
  | loader io _ mv =>
    cases mv with
    | publish m l hpc => exact ⟨m, l, hpc, rfl⟩
    | publishThen l hpc => exact ⟨.poll, l, hpc, rfl⟩
    | _ => exact absurd rfl hne

/-- Whatever is in `state_` was built successfully. -/
theorem state_built (hr : (system P paths base).Reachable s) :
    ∀ l, s.state = some l → Built P paths base l := by
  refine hr.invariant (I := fun u => ∀ l, u.state = some l → Built P paths base l)
    (fun l (hl : none = some l) => nomatch hl) ?_
  intro u a u' hu hbuilt _ hs l hl
  by_cases hsame : u'.state = u.state
  · exact hbuilt l (hsame ▸ hl)
  · obtain ⟨m, x, hpc, hx⟩ := assigning_of_state_ne hs hsame
    rw [hx] at hl
    cases hl
    exact (reachable_publishInv hu).built _ (by rw [hpc]; rfl)

/-! ### Rejected candidates -/

/-- A step that does not accept a candidate: if it builds one, then an allocation fails, or
    parsing, adaptation, indexing or validation does. -/
def Rejecting (P : Pipeline C V K R) (paths : Paths) (base : Option C) (s : State C R)
    (a : Action C) : Prop :=
  ∀ m override, s.pc = .building m override → a = .loader .ok →
    ∃ e, loadOnce P paths base override = .error e

/-- Where no candidate was accepted there is none to publish. -/
theorem candidate_none_of_rejecting (hpc : s.pc.candidate = none)
    (hrej : Rejecting P paths base s a) (hs : step P paths base s a = some s') :
    s'.pc.candidate = none := by
  cases move_of_step hs with
  | file | start => exact hpc
  | load | poll => rfl
  | loader io _ mv =>
    cases mv with
    | quit | «break» | unchanged | changed | read | publish => rfl
    | buildLoad override loaded hb hio hload | buildPoll override loaded hb hio hload =>
      obtain ⟨e, he⟩ := hrej _ override hb (by rw [hio])
      simp [he] at hload
    | assignLoad _ h | assignPoll _ h | skip _ _ h | stat _ _ _ h | record _ _ h
    | measured _ h | publishThen _ h =>
      rw [h] at hpc
      cases hpc

/-- Reloads whose candidates are rejected publish nothing. -/
theorem unchanged_of_rejecting {t : State C R}
    (hsteps : (system P paths base).Steps (Rejecting P paths base) s t)
    (hpc : s.pc.candidate = none) : t.state = s.state ∧ t.registry = s.registry := by
  have hall : t.pc.candidate = none ∧ t.state = s.state ∧ t.registry = s.registry := by
    refine hsteps.preserves
      (I := fun u => u.pc.candidate = none ∧ u.state = s.state ∧ u.registry = s.registry)
      ?_ ⟨hpc, rfl, rfl⟩
    intro u a u' ⟨hu, hstate, hreg⟩ hrej hs
    refine ⟨candidate_none_of_rejecting hu hrej hs, ?_, ?_⟩
    · by_contra hne
      obtain ⟨m, l, hat, -⟩ := assigning_of_state_ne hs (fun he => hne (he.trans hstate))
      rw [hat] at hu
      cases hu
    · by_contra hne
      obtain ⟨m, l, hat, -⟩ := publishing_of_registry_ne hs (fun he => hne (he.trans hreg))
      rw [hat] at hu
      cases hu
  exact hall.2

/-! ### Main results -/

/-- **Publication of reloads.**  In every run: `state_` changes only by storing a candidate for
    which every step of the pipeline succeeded; the process-wide snapshot changes only to the
    candidate that is already in `state_`; as long as every candidate is rejected, readers see
    exactly the previous configuration in both; and the service callback is called when both
    hold the new one, which its outcome does not change. -/
theorem reload_publication {s : State C R} (hr : (system P paths base).Reachable s) :
    (∀ a s', step P paths base s a = some s' → s'.state ≠ s.state →
      ∃ m l, s.pc = .assigning m l ∧ s'.state = some l ∧ Built P paths base l) ∧
    (∀ a s', step P paths base s a = some s' → s'.registry ≠ s.registry →
      ∃ m l, s.pc = .publishing m l ∧ s.state = some l ∧ s'.registry = some l ∧
        Built P paths base l) ∧
    (s.pc = .idle → ∀ t, (system P paths base).Steps (Rejecting P paths base) s t →
      t.state = s.state ∧ t.registry = s.registry) ∧
    (∀ l, s.pc = .calling l → s.state = some l ∧ s.registry = some l ∧
      ∀ io s', step P paths base s (.loader io) = some s' →
        s'.pc = .idle ∧ s'.state = some l ∧ s'.registry = some l) := by
  have hinv := reachable_publishInv hr
  refine ⟨fun a s' hs hne => ?_, fun a s' hs hne => ?_, fun hidle t ht => ?_, fun l hpc => ?_⟩
  · obtain ⟨m, l, hpc, hl⟩ := assigning_of_state_ne hs hne
    exact ⟨m, l, hpc, hl, hinv.built l (by rw [hpc]; rfl)⟩
  · obtain ⟨m, l, hpc, hl⟩ := publishing_of_registry_ne hs hne
    exact ⟨m, l, hpc, hinv.assigned l (by rw [hpc]; rfl), hl, hinv.built l (by rw [hpc]; rfl)⟩
  · exact unchanged_of_rejecting ht (by rw [hidle]; rfl)
  · have hstate := hinv.assigned l (by rw [hpc]; rfl)
    have hreg := hinv.published l (by rw [hpc]; rfl)
    refine ⟨hstate, hreg, fun io s' hs => ?_⟩
    simp only [step, State.loaderStep, hpc] at hs
    cases hs
    exact ⟨rfl, hstate, hreg⟩

/-- A pipeline over numbers that accepts the override as it is, unless it is zero. -/
def numberPipeline : Pipeline Nat Nat Nat Nat where
  flatten c := .ok c
  deepMerge _ o := o
  make := 0
  apply v _ := if v = 0 then .error .adapt else .ok v
  finalize k := .ok k
  index k := .ok k

/-- Both files are configured. -/
def bothPaths : Paths := ⟨"config.yaml", some "override.yaml"⟩

/-- The component starts: it loads override contents 1, and a service sets its callback. -/
def componentSchedule : List (Action Nat) :=
  [[.write ⟨1, 1⟩, .load], List.replicate 7 (.loader .ok), [.start .publishThen]].flatten

/-- The override file is rewritten and a poll runs up to the service callback. -/
def reloadSchedule : List (Action Nat) :=
  [componentSchedule, [.write ⟨2, 2⟩, .poll], List.replicate 7 (.loader .ok)].flatten

/-- The results apply to the loader in front of the service callback. -/
theorem reload_publication_calling : ∃ s : State Nat Nat,
    (system numberPipeline bothPaths (some 7)).Reachable s ∧ s.pc = .calling ⟨some 2, 2⟩ ∧
    s.state = some ⟨some 2, 2⟩ ∧ s.registry = some ⟨some 2, 2⟩ := by
  obtain ⟨s, hr, hpc⟩ := (system numberPipeline bothPaths (some 7)).exists_reachable_of_run
    reloadSchedule (fun s => s.pc = .calling ⟨some 2, 2⟩) (by decide +kernel)
  obtain ⟨hstate, hreg, -⟩ := (reload_publication hr).2.2.2 _ hpc
  exact ⟨s, hr, hpc, hstate, hreg⟩

/-- **A service callback that throws does not undo the reload.**  The loader is idle with
    contents 1 published; after a poll whose callback threw, the poll is over and readers see
    contents 2 in both places. -/
theorem reload_callback_fails : ∃ s t : State Nat Nat,
    (system numberPipeline bothPaths (some 7)).Reachable s ∧ s.pc = .idle ∧
    s.state = some ⟨some 1, 1⟩ ∧ s.registry = some ⟨some 1, 1⟩ ∧
    (system numberPipeline bothPaths (some 7)).runFrom s
      ([[.write ⟨2, 2⟩, .poll], List.replicate 7 (.loader .ok), [.loader .throws]].flatten) =
        some t ∧
    t.pc = .idle ∧ t.state = some ⟨some 2, 2⟩ ∧ t.registry = some ⟨some 2, 2⟩ := by
  obtain ⟨s, hr, ⟨hidle, hstate, hreg⟩, t, hend⟩ := System.exists_reachable_of_run
    (system numberPipeline bothPaths (some 7)) componentSchedule
    (fun s => (s.pc = .idle ∧ s.state = some ⟨some 1, 1⟩ ∧ s.registry = some ⟨some 1, 1⟩) ∧
      ∃ t, (system numberPipeline bothPaths (some 7)).runFrom s
        ([[.write ⟨2, 2⟩, .poll], List.replicate 7 (.loader .ok), [.loader .throws]].flatten) =
          some t ∧
        t.pc = .idle ∧ t.state = some ⟨some 2, 2⟩ ∧ t.registry = some ⟨some 2, 2⟩)
    (by decide +kernel)
  exact ⟨s, t, hr, hidle, hstate, hreg, hend⟩

end ServiceLib.Config
