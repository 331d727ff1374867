import Mathlib

/-!
# Segments of doubly linked lists

A list of nodes is linked when every node, at its address, points back to the
node before it and forward to the node after it.  What it means that a node has
these links is a parameter.  A segment begins after one address and ends before
another, so that two segments that meet make one, and a part in the middle can be
exchanged for another part as long as the links at both ends fit.
-/

namespace LinkedSegments

variable {β : Type*} (addr : β → ℕ)

def first (next : ℕ) : List β → ℕ
  | [] => next
  | b :: _ => addr b

def last (prev : ℕ) : List β → ℕ
  | [] => prev
  | b :: bs => last (addr b) bs

@[simp]
theorem first_nil (next : ℕ) : first addr next [] = next := rfl

@[simp]
theorem first_cons (next : ℕ) (b : β) (bs : List β) : first addr next (b :: bs) = addr b := rfl

@[simp]
theorem last_nil (prev : ℕ) : last addr prev [] = prev := rfl

@[simp]
theorem last_cons (prev : ℕ) (b : β) (bs : List β) :
    last addr prev (b :: bs) = last addr (addr b) bs := rfl

theorem first_append (next : ℕ) (bs cs : List β) :
    first addr next (bs ++ cs) = first addr (first addr next cs) bs := by
  cases bs <;> rfl

theorem last_append (prev : ℕ) (bs cs : List β) :
    last addr prev (bs ++ cs) = last addr (last addr prev bs) cs := by
  induction bs generalizing prev with
  | nil => rfl
  | cons b bs ih => exact ih (addr b)

theorem first_eq_or_mem (next : ℕ) (bs : List β) :
    first addr next bs = next ∧ bs = [] ∨ ∃ b ∈ bs, first addr next bs = addr b := by
  cases bs with
  | nil => exact .inl ⟨rfl, rfl⟩
  | cons b bs => exact .inr ⟨b, List.mem_cons_self, rfl⟩

/-- The nodes from `prev` to `next`, each with its two links. -/
def Segment (node : β → ℕ → ℕ → Prop) : ℕ → List β → ℕ → Prop
  | _, [], _ => True
  | prev, b :: bs, next => node b prev (first addr next bs) ∧ Segment node (addr b) bs next

variable {addr} {node node' : β → ℕ → ℕ → Prop} {prev next : ℕ} {bs cs mid mid' : List β}

@[simp]
theorem segment_nil : Segment addr node prev [] next := trivial

@[simp]
theorem segment_cons {b : β} :
    Segment addr node prev (b :: bs) next ↔
      node b prev (first addr next bs) ∧ Segment addr node (addr b) bs next := Iff.rfl

theorem segment_append :
    Segment addr node prev (bs ++ cs) next ↔
      Segment addr node prev bs (first addr next cs) ∧
        Segment addr node (last addr prev bs) cs next := by
  induction bs generalizing prev with
  | nil => simp
  | cons b bs ih =>
    simp only [List.cons_append, segment_cons, first_append, last_cons]
    rw [ih, and_assoc]

theorem Segment.mono (h : Segment addr node prev bs next)
    (himp : ∀ b ∈ bs, ∀ p n, node b p n → node' b p n) : Segment addr node' prev bs next := by
  induction bs generalizing prev with
  | nil => trivial
  | cons b bs ih =>
    refine ⟨himp b List.mem_cons_self _ _ h.1, ?_⟩
    exact ih h.2 fun c hc => himp c (List.mem_cons_of_mem _ hc)

/-- A part in the middle is exchanged: the nodes around it stay as they are, but
for the back link of the node behind it. -/
theorem Segment.exchange (h : Segment addr node prev (bs ++ mid ++ cs) next)
    (hbefore : ∀ b ∈ bs, ∀ p n, node b p n → node' b p n)
    (hfirst : first addr (first addr next cs) mid' = first addr (first addr next cs) mid)
    (hmid : Segment addr node' (last addr prev bs) mid' (first addr next cs))
    (hbehind : ∀ c rest, cs = c :: rest → ∀ p n, node c p n →
      node' c (last addr (last addr prev bs) mid') n)
    (hafter : ∀ c rest, cs = c :: rest → ∀ d ∈ rest, ∀ p n, node d p n → node' d p n) :
    Segment addr node' prev (bs ++ mid' ++ cs) next := by
  rw [segment_append, segment_append] at h
  obtain ⟨⟨hbs, -⟩, hcs⟩ := h
  rw [segment_append, segment_append]
  refine ⟨⟨?_, hmid⟩, ?_⟩
  · rw [hfirst]
    exact hbs.mono hbefore
  · cases cs with
    | nil => trivial
    | cons c rest =>
      rw [last_append]
      exact ⟨hbehind c rest rfl _ _ hcs.1, hcs.2.mono (hafter c rest rfl)⟩

end LinkedSegments
