import Mathlib

/-!
# Guarded runs of a transition system

A system takes one partial step per event.  A run is guarded when every event
of it meets a condition on the state before the step.  The rules of this
file reduce a statement about all guarded runs to a statement about one step:
an invariant that guarded steps preserve holds in every state reached, and
what the invariant guarantees of one step holds of everything observed, and a
relation to an abstract state that steps keep is kept by runs.  What has
happened so far can be kept next to the state in a history variable.
-/

namespace GuardedRuns

variable {σ ε ο : Type*}

def run (step : σ → ε → Option σ) : σ → List ε → Option σ
  | state, [] => some state
  | state, event :: events =>
    match step state event with
    | some next => run step next events
    | none => none

def Guarded (step : σ → ε → Option σ) (guard : σ → ε → Prop) :
    σ → List ε → Prop
  | _, [] => True
  | state, event :: events =>
    guard state event ∧
      match step state event with
      | some next => Guarded step guard next events
      | none => True

/-- What is observed along a run, up to the first event that cannot happen. -/
def observations (step : σ → ε → Option σ) (observe : σ → ε → List ο) :
    σ → List ε → List ο
  | _, [] => []
  | state, event :: events =>
    observe state event ++
      match step state event with
      | some next => observations step observe next events
      | none => []

variable {step : σ → ε → Option σ} {guard guard' : σ → ε → Prop} {observe : σ → ε → List ο}
  {inv : σ → Prop} {state next last : σ} {event : ε} {events : List ε}

@[simp]
theorem run_nil (state : σ) : run step state [] = some state := rfl

theorem run_cons_some (events : List ε) (hstep : step state event = some next) :
    run step state (event :: events) = run step next events := by
  simp [run, hstep]

theorem run_cons_eq_some (hrun : run step state (event :: events) = some last) :
    ∃ next, step state event = some next ∧ run step next events = some last := by
  cases hstep : step state event with
  | none => simp [run, hstep] at hrun
  | some next =>
    rw [run_cons_some events hstep] at hrun
    exact ⟨next, rfl, hrun⟩

theorem run_append (state : σ) (first second : List ε) :
    run step state (first ++ second) =
      (run step state first).bind fun next => run step next second := by
  induction first generalizing state with
  | nil => rfl
  | cons event events ih =>
    cases hstep : step state event with
    | none => simp [run, hstep]
    | some next => simp [run, hstep, ih]

theorem guarded_cons (hguard : guard state event) (hstep : step state event = some next)
    (hrest : Guarded step guard next events) :
    Guarded step guard state (event :: events) := by
  refine ⟨hguard, ?_⟩
  rw [hstep]
  exact hrest

instance instDecidableGuarded [∀ state event, Decidable (guard state event)]
    (state : σ) : (events : List ε) → Decidable (Guarded step guard state events)
  | [] => .isTrue trivial
  | event :: events =>
    match h : step state event with
    | none =>
      decidable_of_iff (guard state event) (by simp [Guarded, h])
    | some next =>
      have := instDecidableGuarded next events
      decidable_of_iff (guard state event ∧ Guarded step guard next events) (by simp [Guarded, h])

theorem Guarded.tail (h : Guarded step guard state (event :: events))
    (hstep : step state event = some next) : Guarded step guard next events := by
  have hrest := h.2
  rwa [hstep] at hrest

theorem Guarded.of_invariant
    (hpreserve : ∀ state event next, inv state → step state event = some next → inv next)
    (himp : ∀ state event, inv state → guard state event → guard' state event)
    (hinv : inv state) (h : Guarded step guard state events) :
    Guarded step guard' state events := by
  induction events generalizing state with
  | nil => trivial
  | cons event events ih =>
    refine ⟨himp state event hinv h.1, ?_⟩
    cases hstep : step state event with
    | none => trivial
    | some next => exact ih (hpreserve state event next hinv hstep) (h.tail hstep)

theorem Guarded.mono (himp : ∀ state event, guard state event → guard' state event)
    (h : Guarded step guard state events) : Guarded step guard' state events :=
  .of_invariant (fun _ _ _ htrue _ => htrue) (fun state event (_ : True) => himp state event)
    trivial h

theorem Guarded.and (h : Guarded step guard state events) (h' : Guarded step guard' state events) :
    Guarded step (fun state event => guard state event ∧ guard' state event) state events := by
  induction events generalizing state with
  | nil => trivial
  | cons event events ih =>
    refine ⟨⟨h.1, h'.1⟩, ?_⟩
    cases hstep : step state event with
    | none => trivial
    | some next => exact ih (h.tail hstep) (h'.tail hstep)

theorem Guarded.of_forall (h : ∀ state, ∀ event ∈ events, guard state event) :
    Guarded step guard state events := by
  induction events generalizing state with
  | nil => trivial
  | cons event events ih =>
    refine ⟨h state event List.mem_cons_self, ?_⟩
    cases step state event with
    | none => trivial
    | some next => exact ih fun state event hevent => h state event (List.mem_cons_of_mem _ hevent)

/-- A relation to an abstract state that guarded steps keep, while the abstract
state folds what they show, relates the end of a run to the fold of all that
the run shows. -/
theorem fold_run {τ : Type*} {rel : τ → σ → Prop} {apply : τ → ο → τ}
    (hpreserve : ∀ abstract state event next,
      rel abstract state → guard state event → step state event = some next →
        rel ((observe state event).foldl apply abstract) next)
    {abstract : τ} (hrel : rel abstract state) (hguard : Guarded step guard state events)
    (hrun : run step state events = some last) :
    rel ((observations step observe state events).foldl apply abstract) last := by
  induction events generalizing abstract state with
  | nil =>
    have hlast : state = last := by simpa using hrun
    exact hlast ▸ hrel
  | cons event events ih =>
    obtain ⟨next, hstep, hrest⟩ := run_cons_eq_some hrun
    have hnext := hpreserve abstract state event next hrel hguard.1 hstep
    have hlast := ih hnext (hguard.tail hstep) hrest
    simpa only [observations, hstep, List.foldl_append] using hlast

theorem total_run (hstep : ∀ state event, inv state → guard state event →
      ∃ next, step state event = some next ∧ inv next)
    (hinv : inv state) (hguard : Guarded step guard state events) :
    ∃ last, run step state events = some last ∧ inv last := by
  induction events generalizing state with
  | nil => exact ⟨state, rfl, hinv⟩
  | cons event events ih =>
    obtain ⟨next, hnext, hinv'⟩ := hstep state event hinv hguard.1
    obtain ⟨last, hrun, hlast⟩ := ih hinv' (hguard.tail hnext)
    exact ⟨last, (run_cons_some events hnext).trans hrun, hlast⟩

section invariant

variable (hpreserve : ∀ state event next,
    inv state → guard state event → step state event = some next → inv next)
  (hinv : inv state) (hguard : Guarded step guard state events)
include hpreserve hinv hguard

theorem invariant_run {last : σ} (hrun : run step state events = some last) : inv last := by
  induction events generalizing state with
  | nil =>
    have hlast : state = last := by simpa using hrun
    exact hlast ▸ hinv
  | cons event events ih =>
    obtain ⟨next, hstep, hrest⟩ := run_cons_eq_some hrun
    exact ih (hpreserve state event next hinv hguard.1 hstep) (hguard.tail hstep) hrest

end invariant

theorem invariant_always
    (hpreserve : ∀ state event next, inv state → step state event = some next → inv next)
    {last : σ} (hinv : inv state) (hrun : run step state events = some last) : inv last := by
  have hguard : Guarded step (fun _ _ => True) state events :=
    Guarded.of_forall fun _ _ _ => trivial
  exact invariant_run (fun _ _ _ h _ => hpreserve _ _ _ h) hinv hguard hrun

/-! ## History variables -/

/-- The system with a history variable, which every event may change. -/
def track {η : Type*} (step : σ → ε → Option σ) (note : η → σ → ε → σ → η) (state : σ × η)
    (event : ε) : Option (σ × η) :=
  (step state.1 event).map fun next => (next, note state.2 state.1 event next)

theorem track_eq_some {η : Type*} {note : η → σ → ε → σ → η} {state next : σ × η} {event : ε}
    (h : track step note state event = some next) :
    step state.1 event = some next.1 ∧ next.2 = note state.2 state.1 event next.1 := by
  obtain ⟨after, hstep, rfl⟩ := Option.map_eq_some_iff.1 h
  exact ⟨hstep, rfl⟩

end GuardedRuns
