import Mathlib

/-!
# Lists of half-open intervals

Items with a lower and an upper end, kept in a list in any order.  Items that are
apart have no point in common, so at most one of them holds a point.  Replacing an
item by pieces of itself changes what is found only inside that item.
-/

namespace IntervalLists

variable {α : Type*} (lo hi : α → ℕ)

def Apart (a b : α) : Prop := hi a ≤ lo b ∨ hi b ≤ lo a

def Within (piece whole : α) : Prop := lo whole ≤ lo piece ∧ hi piece ≤ hi whole

def holds (x : ℕ) (a : α) : Bool := decide (lo a ≤ x) && decide (x < hi a)

def lookup (items : List α) (x : ℕ) : Option α := items.find? (holds lo hi x)

variable {lo hi} {items before after pieces : List α} {a b : α} {x : ℕ}

theorem holds_iff : holds lo hi x a = true ↔ lo a ≤ x ∧ x < hi a := by
  simp [holds]

theorem Apart.symm (h : Apart lo hi a b) : Apart lo hi b a := Or.symm h

theorem Apart.not_holds (h : Apart lo hi a b) (ha : holds lo hi x a = true) :
    holds lo hi x b = false := by
  rw [holds_iff] at ha
  rw [Bool.eq_false_iff, ne_eq, holds_iff]
  rcases h with h | h <;> omega

theorem Within.holds {piece whole : α} (h : Within lo hi piece whole)
    (hx : holds lo hi x piece = true) : IntervalLists.holds lo hi x whole = true := by
  rw [holds_iff] at hx ⊢
  obtain ⟨hlo, hhi⟩ := h
  omega

theorem Within.apart {piece whole : α} (h : Within lo hi piece whole)
    (hb : Apart lo hi whole b) : Apart lo hi piece b := by
  obtain ⟨hlo, hhi⟩ := h
  rcases hb with hb | hb
  · exact Or.inl (hhi.trans hb)
  · exact Or.inr (hb.trans hlo)

theorem lookup_mem (h : lookup lo hi items x = some a) : a ∈ items ∧ lo a ≤ x ∧ x < hi a :=
  ⟨List.mem_of_find?_eq_some h, holds_iff.1 (List.find?_some h)⟩

theorem lookup_eq_none : lookup lo hi items x = none ↔ ∀ a ∈ items, holds lo hi x a = false := by
  simp [lookup]

theorem lookup_append : lookup lo hi (before ++ after) x =
    (lookup lo hi before x).or (lookup lo hi after x) :=
  List.find?_append

theorem lookup_map {f : α → α} (hlo : ∀ a, lo (f a) = lo a) (hhi : ∀ a, hi (f a) = hi a) :
    lookup lo hi (items.map f) x = (lookup lo hi items x).map f := by
  have hholds : holds lo hi x ∘ f = holds lo hi x := by
    funext a
    simp [holds, hlo, hhi]
  unfold lookup
  rw [List.find?_map, hholds]

theorem apart_of_mem (h : (before ++ a :: after).Pairwise (Apart lo hi))
    (hb : b ∈ before ++ after) : Apart lo hi a b := by
  rw [List.pairwise_append, List.pairwise_cons] at h
  obtain ⟨-, ⟨hafter, -⟩, hacross⟩ := h
  rcases List.mem_append.1 hb with hb | hb
  · exact (hacross b hb a List.mem_cons_self).symm
  · exact hafter b hb

theorem lookup_eq_some_of_mem (h : items.Pairwise (Apart lo hi)) (ha : a ∈ items)
    (hx : holds lo hi x a = true) : lookup lo hi items x = some a := by
  obtain ⟨before, after, rfl⟩ := List.append_of_mem ha
  have hbefore : lookup lo hi before x = none := lookup_eq_none.2 fun b hb =>
    (apart_of_mem h (List.mem_append_left after hb)).not_holds hx
  rw [lookup_append, hbefore, Option.none_or]
  exact List.find?_cons_of_pos hx

theorem pairwise_replace (h : (before ++ a :: after).Pairwise (Apart lo hi))
    (hwithin : ∀ piece ∈ pieces, Within lo hi piece a) (hpieces : pieces.Pairwise (Apart lo hi)) :
    (before ++ (pieces ++ after)).Pairwise (Apart lo hi) := by
  have hothers : ∀ piece ∈ pieces, ∀ b ∈ before ++ after, Apart lo hi piece b :=
    fun piece hpiece b hb => (hwithin piece hpiece).apart (apart_of_mem h hb)
  rw [List.pairwise_append, List.pairwise_cons] at h
  obtain ⟨hbefore, ⟨-, hafter⟩, hacross⟩ := h
  rw [List.pairwise_append, List.pairwise_append]
  refine ⟨hbefore, ⟨hpieces, hafter, ?_⟩, ?_⟩
  · exact fun piece hpiece b hb => hothers piece hpiece b (List.mem_append_right before hb)
  · intro b hb c hc
    rcases List.mem_append.1 hc with hc | hc
    · exact (hothers c hc b (List.mem_append_left after hb)).symm
    · exact hacross b hb c (List.mem_cons_of_mem a hc)

theorem lookup_replace (h : (before ++ a :: after).Pairwise (Apart lo hi))
    (hwithin : ∀ piece ∈ pieces, Within lo hi piece a) :
    lookup lo hi (before ++ (pieces ++ after)) x =
      if holds lo hi x a then lookup lo hi pieces x
      else lookup lo hi (before ++ a :: after) x := by
  by_cases hx : holds lo hi x a = true
  · have hnone : ∀ b ∈ before ++ after, holds lo hi x b = false := fun b hb =>
      (apart_of_mem h hb).not_holds hx
    have hbefore : lookup lo hi before x = none :=
      lookup_eq_none.2 fun b hb => hnone b (List.mem_append_left after hb)
    have hafter : lookup lo hi after x = none :=
      lookup_eq_none.2 fun b hb => hnone b (List.mem_append_right before hb)
    rw [if_pos hx, lookup_append, lookup_append, hbefore, hafter, Option.none_or, Option.or_none]
  · have hpieces : lookup lo hi pieces x = none := lookup_eq_none.2 fun piece hpiece =>
      Bool.eq_false_iff.2 fun hholds => hx ((hwithin piece hpiece).holds hholds)
    rw [if_neg hx, lookup_append, lookup_append, lookup_append, hpieces, Option.none_or]
    congr 1
    exact (List.find?_cons_of_neg hx).symm

end IntervalLists
