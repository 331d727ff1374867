import NPKernel.GuardedRuns

/-!
# Listings handed out in pages

A list is handed out piece by piece, each piece at most as large as a page of varying
size.  The machine that does so keeps what is left; a step that hands out less than it
takes away loses the difference, and a run that hands out everything has lost nothing.
-/

namespace NPKernel

namespace PagedListings

open GuardedRuns

/-! ## First occurrences -/

section firsts

variable {α : Type*} [DecidableEq α]

def firsts : List α → List α → List α
  | _, [] => []
  | seen, a :: rest =>
    if a ∈ seen then firsts seen rest else a :: firsts (a :: seen) rest

theorem mem_firsts {seen list : List α} {a : α} :
    a ∈ firsts seen list ↔ a ∈ list ∧ a ∉ seen := by
  induction list generalizing seen with
  | nil => simp [firsts]
  | cons b rest ih =>
    unfold firsts
    by_cases hb : b ∈ seen
    · rw [if_pos hb, ih]
      constructor
      · intro h
        exact ⟨List.mem_cons_of_mem b h.1, h.2⟩
      · rintro ⟨h, hseen⟩
        rcases List.mem_cons.1 h with rfl | h
        · exact absurd hb hseen
        · exact ⟨h, hseen⟩
    · rw [if_neg hb, List.mem_cons, ih, List.mem_cons, List.mem_cons]
      by_cases hab : a = b
      · subst hab
        simp [hb]
      · simp [hab]

theorem nodup_firsts {seen list : List α} : (firsts seen list).Nodup := by
  induction list generalizing seen with
  | nil => exact List.nodup_nil
  | cons b rest ih =>
    unfold firsts
    split
    · exact ih
    · apply List.Nodup.cons
      · intro hmem
        exact (mem_firsts.1 hmem).2 List.mem_cons_self
      · exact ih

theorem firsts_congr {seen seen' : List α} (h : ∀ a, a ∈ seen ↔ a ∈ seen') (list : List α) :
    firsts seen list = firsts seen' list := by
  induction list generalizing seen seen' with
  | nil => rfl
  | cons b rest ih =>
    have hcons : ∀ a, a ∈ b :: seen ↔ a ∈ b :: seen' := by
      intro a
      rw [List.mem_cons, List.mem_cons, h a]
    unfold firsts
    by_cases hb : b ∈ seen
    · rw [if_pos hb, if_pos ((h b).1 hb), ih h]
    · rw [if_neg hb, if_neg (mt (h b).2 hb), ih hcons]

end firsts

/-! ## What fits on a page -/

section fitting

variable {α : Type*} (size : α → ℕ)

def fitting : ℕ → List α → List α
  | _, [] => []
  | room, a :: rest => if size a ≤ room then a :: fitting (room - size a) rest else []

theorem fitting_append_drop (room : ℕ) (list : List α) :
    fitting size room list ++ list.drop (fitting size room list).length = list := by
  induction list generalizing room with
  | nil => rfl
  | cons a rest ih =>
    unfold fitting
    split
    · simp [ih]
    · rfl

variable {size}

theorem fitting_cons_of_le {room : ℕ} {a : α} {rest : List α} (h : size a ≤ room) :
    fitting size room (a :: rest) = a :: fitting size (room - size a) rest := by
  rw [fitting, if_pos h]

theorem fitting_cons_of_lt {room : ℕ} {a : α} {rest : List α} (h : room < size a) :
    fitting size room (a :: rest) = [] := by
  rw [fitting, if_neg (Nat.not_le.2 h)]

end fitting

/-! ## Runs that hand out a list -/

section runs

variable {σ ε α : Type*} {step : σ → ε → Option σ} {handed : σ → ε → List α}
  {left : σ → List α} {state last : σ} {events : List ε}

section shrinking

variable {inv : σ → Prop}
  (hpreserve : ∀ state event next, inv state → step state event = some next → inv next)
  (hstep : ∀ state event next, inv state → step state event = some next →
    (handed state event).length + (left next).length ≤ (left state).length)
  (hinv : inv state) (hrun : run step state events = some last)

include hpreserve hstep hinv hrun

theorem handed_length_le :
    (observations step handed state events).length + (left last).length ≤ (left state).length := by
  induction events generalizing state with
  | nil =>
    obtain rfl : state = last := by simpa using hrun
    simp [observations]
  | cons event events ih =>
    obtain ⟨next, hnext, hrest⟩ := run_cons_eq_some hrun
    have hone := hstep state event next hinv hnext
    have hmore := ih (hpreserve state event next hinv hnext) hrest
    simp only [observations, hnext, List.length_append]
    omega

/-- A run that hands out as many elements as there were has lost none of them at any step. -/
theorem lossless_of_length
    (hall : (left state).length ≤ (observations step handed state events).length) :
    Guarded step (fun state event => ∀ next, step state event = some next →
      (handed state event).length + (left next).length = (left state).length) state events := by
  induction events generalizing state with
  | nil => trivial
  | cons event events ih =>
    obtain ⟨next, hnext, hrest⟩ := run_cons_eq_some hrun
    have hone := hstep state event next hinv hnext
    have hnextinv := hpreserve state event next hinv hnext
    have hmore := handed_length_le hpreserve hstep hnextinv hrest
    simp only [observations, hnext, List.length_append] at hall
    apply guarded_cons _ hnext
    · apply ih hnextinv hrest
      omega
    · intro next' hnext'
      obtain rfl : next = next' := Option.some.inj (hnext.symm.trans hnext')
      omega

end shrinking

theorem handed_append_left {guard : σ → ε → Prop}
    (hstep : ∀ state event next, guard state event → step state event = some next →
      left state = handed state event ++ left next)
    (hguard : Guarded step guard state events) (hrun : run step state events = some last) :
    left state = observations step handed state events ++ left last := by
  induction events generalizing state with
  | nil =>
    obtain rfl : state = last := by simpa using hrun
    rfl
  | cons event events ih =>
    obtain ⟨next, hnext, hrest⟩ := run_cons_eq_some hrun
    rw [hstep state event next hguard.1 hnext, ih (hguard.tail hnext) hrest]
    simp only [observations, hnext, List.append_assoc]

end runs

end PagedListings

end NPKernel
