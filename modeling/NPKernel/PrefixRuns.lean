import Mathlib

/-!
# Two runs side by side

A run is a fold of a step function over a list.  Two runs over the same list stay related all
along exactly when every step is one that keeps the relation.
-/

namespace PrefixRuns

variable {σ τ ε : Type*}

theorem related_iff {step : σ → ε → σ} {step' : τ → ε → τ} (related : σ → τ → Prop)
    {keeps : τ → ε → Prop} {start : σ} {start' : τ} (hstart : related start start')
    (hstep : ∀ state state' event, related state state' →
      (related (step state event) (step' state' event) ↔ keeps state' event)) (events : List ε) :
    (∀ front, front <+: events → related (front.foldl step start) (front.foldl step' start')) ↔
      ∀ front event, front ++ [event] <+: events → keeps (front.foldl step' start') event := by
  constructor
  · intro h front event hevents
    apply (hstep _ _ event (h front ((List.prefix_append front [event]).trans hevents))).1
    have hnext := h _ hevents
    rwa [List.foldl_append, List.foldl_append] at hnext
  · intro h front
    induction front using List.reverseRecOn with
    | nil => exact fun _ => hstart
    | append_singleton front event ih =>
      intro hevents
      rw [List.foldl_append, List.foldl_append]
      exact (hstep _ _ event (ih ((List.prefix_append front [event]).trans hevents))).2
        (h front event hevents)

theorem forall_prefix_append {events : List ε} {event : ε} {holds : List ε → ε → Prop} :
    (∀ front next, front ++ [next] <+: events ++ [event] → holds front next) ↔
      (∀ front next, front ++ [next] <+: events → holds front next) ∧ holds events event := by
  constructor
  · intro h
    exact ⟨fun front next hfront => h front next (hfront.trans (List.prefix_append _ _)),
      h events event List.prefix_rfl⟩
  · rintro ⟨h, hlast⟩ front next hfront
    rcases List.prefix_concat_iff.mp hfront with heq | hfront
    · obtain ⟨rfl, hsame⟩ := List.append_inj' heq rfl
      cases hsame
      exact hlast
    · exact h front next hfront

/-- Of the elements put into a list with a bound, those that fit are kept. -/
theorem foldl_bounded (room : ℕ) (kept elements : List ε) :
    elements.foldl (fun kept element => if kept.length < room then kept ++ [element] else kept)
      kept = kept ++ elements.take (room - kept.length) := by
  induction elements generalizing kept with
  | nil => simp
  | cons element elements ih =>
    rw [List.foldl_cons, ih]
    split
    next hroom =>
      have hnext : room - kept.length = room - (kept.length + 1) + 1 := by omega
      simp [hnext]
    next hfull =>
      have hnone : room - kept.length = 0 := by omega
      simp [hnone]

end PrefixRuns
