import Mathlib

/-!
# Buffers that are zero beyond their content

A file of `size` items is kept in a buffer without end whose cells from `size`
on are zero.  Overwriting cells of the buffer, also beyond its content, then is
the same as patching the list of its items: the gap that a write beyond the end
leaves is filled with zeros.
-/

namespace PaddedBuffers

variable {α : Type*}

abbrev Buffer (α : Type*) := ℕ → α

def image (buffer : Buffer α) (size : ℕ) : List α :=
  (List.range size).map buffer

@[simp]
theorem image_length (buffer : Buffer α) (size : ℕ) : (image buffer size).length = size := by
  simp [image]

theorem image_getElem (buffer : Buffer α) {size k : ℕ} (hk : k < (image buffer size).length) :
    (image buffer size)[k] = buffer k := by
  simp [image]

variable [Zero α]

def PaddedFrom (size : ℕ) (buffer : Buffer α) : Prop :=
  ∀ k, size ≤ k → buffer k = 0

def overwrite (buffer : Buffer α) (offset : ℕ) (items : List α) : Buffer α :=
  fun k =>
    if offset ≤ k ∧ k < offset + items.length then items.getD (k - offset) 0
    else buffer k

/-- The list with the items at the offset, filled up with zeros if it ends before
the offset. -/
def patch (content : List α) (offset : ℕ) (items : List α) : List α :=
  (content ++ List.replicate (offset - content.length) 0).take offset ++ items ++
    content.drop (offset + items.length)

theorem PaddedFrom.overwrite {size : ℕ} {buffer : Buffer α} (h : PaddedFrom size buffer)
    (offset : ℕ) (items : List α) :
    PaddedFrom (max size (offset + items.length)) (overwrite buffer offset items) := by
  intro k hk
  have hoff : ¬(offset ≤ k ∧ k < offset + items.length) := by omega
  rw [PaddedBuffers.overwrite, if_neg hoff]
  exact h k (by omega)

theorem PaddedFrom.mono {size bound : ℕ} {buffer : Buffer α} (h : PaddedFrom size buffer)
    (hle : size ≤ bound) : PaddedFrom bound buffer :=
  fun k hk => h k (le_trans hle hk)

theorem patch_length (content : List α) (offset : ℕ) (items : List α) :
    (patch content offset items).length = max content.length (offset + items.length) := by
  simp [patch]
  omega

theorem getElem_filled {buffer : Buffer α} {size offset k : ℕ} (h : PaddedFrom size buffer)
    (hk : k < ((image buffer size ++
      List.replicate (offset - (image buffer size).length) 0).take offset).length) :
    ((image buffer size ++
      List.replicate (offset - (image buffer size).length) 0).take offset)[k] = buffer k := by
  rw [List.getElem_take]
  by_cases hinside : k < size
  · rw [List.getElem_append_left (by simpa using hinside), image_getElem]
  · have hpadding : buffer k = 0 := h k (by omega)
    rw [List.getElem_append_right (by simpa using hinside), List.getElem_replicate, hpadding]

theorem image_overwrite {buffer : Buffer α} {size : ℕ} (h : PaddedFrom size buffer)
    (offset : ℕ) (items : List α) :
    image (overwrite buffer offset items) (max size (offset + items.length)) =
      patch (image buffer size) offset items := by
  apply List.ext_getElem
  · rw [image_length, patch_length, image_length]
  intro k hk hk'
  have hfilled : ((image buffer size ++
      List.replicate (offset - (image buffer size).length) 0).take offset).length =
      offset := by
    simp
    omega
  rw [image_getElem, overwrite]
  simp only [patch]
  by_cases hbefore : k < offset
  · rw [if_neg (by omega), List.getElem_append_left (by simp; omega),
      List.getElem_append_left (by omega), getElem_filled h]
  by_cases hitem : k < offset + items.length
  · have hindex : k - offset < items.length := by omega
    rw [if_pos (by omega), List.getElem_append_left (by simp; omega),
      List.getElem_append_right (by omega), List.getD_eq_getElem?_getD,
      List.getElem?_eq_getElem hindex]
    simp only [hfilled, Option.getD_some]
  · rw [if_neg (by omega), List.getElem_append_right (by simp; omega), List.getElem_drop,
      image_getElem]
    congr 1
    simp only [List.length_append, hfilled]
    omega

end PaddedBuffers
