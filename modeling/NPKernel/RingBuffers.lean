import Mathlib

/-!
# Ring buffers

A ring buffer keeps `count` live cells from `head` on, around the end of an
array of `capacity` cells.  What it stores is the list of its live cells in that
order, and its operations are operations on that list: a cell written behind the
last one is appended, and moving the later cells one place forward removes an
entry from the middle.
-/

namespace RingBuffers

variable {α : Type*} (capacity head : ℕ)

def cell (i : ℕ) : ℕ := (head + i) % capacity

def contents (cells : ℕ → α) (count : ℕ) : List α :=
  (List.range count).map fun i => cells (cell capacity head i)

def shift : List ℕ → (ℕ → α) → ℕ → α
  | [], cells => cells
  | i :: positions, cells =>
    shift positions
      (Function.update cells (cell capacity head i) (cells (cell capacity head (i + 1))))

variable {capacity head} {cells : ℕ → α} {count : ℕ}

theorem cell_inj {i j : ℕ} (hi : i < capacity) (hj : j < capacity) :
    cell capacity head i = cell capacity head j ↔ i = j := by
  refine ⟨fun h => ?_, fun h => h ▸ rfl⟩
  have hmod : i ≡ j [MOD capacity] := Nat.ModEq.add_left_cancel' head h
  exact hmod.eq_of_lt_of_lt hi hj

@[simp]
theorem length_contents : (contents capacity head cells count).length = count := by
  simp [contents]

@[simp]
theorem getElem_contents {i : ℕ} (hi : i < (contents capacity head cells count).length) :
    (contents capacity head cells count)[i] = cells (cell capacity head i) := by
  simp [contents]

theorem contents_push (hcount : count < capacity) (entry : α) :
    contents capacity head (Function.update cells (cell capacity head count) entry) (count + 1) =
      contents capacity head cells count ++ [entry] := by
  unfold contents
  rw [List.range_succ, List.map_append, List.map_singleton, Function.update_self]
  congr 1
  refine List.map_congr_left fun i hi => ?_
  have hlt : i < count := List.mem_range.1 hi
  have hne : cell capacity head i ≠ cell capacity head count := by
    rw [Ne, cell_inj (by omega) hcount]
    omega
  exact Function.update_of_ne hne _ _

theorem contents_pop (hhead : head < capacity) :
    contents capacity head cells (count + 1) =
      cells head :: contents capacity ((head + 1) % capacity) cells count := by
  unfold contents
  rw [List.range_succ_eq_map, List.map_cons, List.map_map]
  have hfirst : cell capacity head 0 = head := Nat.mod_eq_of_lt hhead
  rw [hfirst]
  congr 1
  apply List.map_congr_left
  intro i _
  simp only [Function.comp_apply, cell, Nat.mod_add_mod]
  congr 2
  omega

theorem shift_cell {first n i : ℕ} (hblock : first + n < capacity) (hi : i < capacity) :
    shift capacity head (List.range' first n) cells (cell capacity head i) =
      if first ≤ i ∧ i < first + n then cells (cell capacity head (i + 1))
      else cells (cell capacity head i) := by
  induction n generalizing first cells with
  | zero =>
    rw [if_neg (by omega)]
    rfl
  | succ n ih =>
    rw [List.range'_succ, shift, ih (by omega)]
    simp only [Function.update_apply]
    by_cases hfirst : i = first
    · subst hfirst
      rw [if_neg (by omega), if_pos rfl, if_pos (by omega)]
    · rw [if_neg (mt (cell_inj hi (by omega)).1 hfirst)]
      split
      next hin =>
        rw [if_neg (mt (cell_inj (by omega) (by omega)).1 (by omega)), if_pos (by omega)]
      next hout => rw [if_neg (by omega)]

theorem contents_shift {found : ℕ} (hfound : found < count) (hcount : count ≤ capacity) :
    contents capacity head
        (shift capacity head (List.range' found (count - 1 - found)) cells) (count - 1) =
      (contents capacity head cells count).eraseIdx found := by
  refine List.ext_getElem ?_ ?_
  · rw [List.length_eraseIdx_of_lt (by simpa using hfound)]
    simp
  · intro i hi _
    have hi' : i < count - 1 := by simpa using hi
    rw [getElem_contents, shift_cell (by omega) (by omega), List.getElem_eraseIdx]
    by_cases hlt : i < found
    · rw [if_neg (by omega), dif_pos hlt, getElem_contents]
    · rw [if_pos (by omega), dif_neg hlt, getElem_contents]

/-! ## Searching from the head -/

section Search

variable (p : α → Bool)

theorem any_contents :
    (contents capacity head cells count).any p =
      (List.range count).any fun i => p (cells (cell capacity head i)) := by
  simp [contents, Function.comp_def]

theorem findIdx?_contents :
    (contents capacity head cells count).findIdx? p =
      (List.range count).find? fun i => p (cells (cell capacity head i)) := by
  cases hfind : (List.range count).find? fun i => p (cells (cell capacity head i)) with
  | none =>
    rw [List.find?_eq_none] at hfind
    rw [List.findIdx?_eq_none_iff]
    intro entry hentry
    obtain ⟨i, hi, rfl⟩ := List.mem_map.1 hentry
    simpa using hfind i hi
  | some found =>
    rw [List.find?_range_eq_some] at hfind
    obtain ⟨hp, hmem, hbefore⟩ := hfind
    rw [List.findIdx?_eq_some_iff_getElem]
    refine ⟨by simpa using hmem, by simpa using hp, ?_⟩
    intro j hj
    simpa using hbefore j hj

theorem find?_contents :
    (contents capacity head cells count).find? p =
      ((List.range count).find? fun i => p (cells (cell capacity head i))).map
        fun i => cells (cell capacity head i) := by
  rw [contents, List.find?_map]
  rfl

end Search

/-! ## Removing the first match -/

section Removal

variable {p q : α → Bool}

theorem filter_eq_find?_append (p : α → Bool) (entries : List α) :
    entries.filter p = (entries.find? p).toList ++ (entries.eraseP p).filter p := by
  induction entries with
  | nil => rfl
  | cons entry entries ih =>
    by_cases hp : p entry
    · simp [hp]
    · simp [hp, ih]

theorem filter_eraseP_of_disjoint (hdisjoint : ∀ entry, p entry = true → q entry = false)
    (entries : List α) : (entries.eraseP p).filter q = entries.filter q := by
  induction entries with
  | nil => rfl
  | cons entry entries ih =>
    by_cases hp : p entry
    · simp [hp, hdisjoint entry hp]
    · simp [hp, List.filter_cons, ih]

theorem find?_eraseP_of_disjoint (hdisjoint : ∀ entry, p entry = true → q entry = false)
    (entries : List α) : (entries.eraseP p).find? q = entries.find? q := by
  rw [← List.head?_filter, ← List.head?_filter, filter_eraseP_of_disjoint hdisjoint]

end Removal

end RingBuffers
