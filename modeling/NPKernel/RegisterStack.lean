import Mathlib

/-!
# Saving and reloading registers on a stack

A stack is the sequence of words at and above the stack pointer.  Pushing a
list of words and popping a list of registers are treated here for arbitrary
word and register types.  The point of the file is the slot of a register:
after a list of pops without repetition every register holds the word at its
own position of the list, so a save sequence and a reload sequence agree on a
register exactly when they give it the same slot.
-/

namespace RegisterStack

variable {ρ ω : Type*}

abbrev Stack (ω : Type*) := ℕ → ω

def push (word : ω) (stack : Stack ω) : Stack ω
  | 0 => word
  | i + 1 => stack i

def drop (count : ℕ) (stack : Stack ω) : Stack ω :=
  fun i => stack (count + i)

@[simp]
theorem push_zero (word : ω) (stack : Stack ω) : push word stack 0 = word := rfl

@[simp]
theorem push_succ (word : ω) (stack : Stack ω) (i : ℕ) : push word stack (i + 1) = stack i := rfl

@[simp]
theorem drop_apply (count : ℕ) (stack : Stack ω) (i : ℕ) :
    drop count stack i = stack (count + i) := rfl

@[simp]
theorem drop_zero (stack : Stack ω) : drop 0 stack = stack := by
  funext i
  simp

theorem drop_drop (first second : ℕ) (stack : Stack ω) :
    drop second (drop first stack) = drop (first + second) stack := by
  funext i
  simp [Nat.add_assoc]

def pushAll : List ω → Stack ω → Stack ω
  | [], stack => stack
  | word :: words, stack => pushAll words (push word stack)

@[simp]
theorem pushAll_nil (stack : Stack ω) : pushAll [] stack = stack := rfl

@[simp]
theorem pushAll_cons (word : ω) (words : List ω) (stack : Stack ω) :
    pushAll (word :: words) stack = pushAll words (push word stack) := rfl

theorem pushAll_above (words : List ω) (stack : Stack ω) (i : ℕ) :
    pushAll words stack (words.length + i) = stack i := by
  induction words generalizing stack i with
  | nil => simp
  | cons word words ih =>
    have hindex : (word :: words).length + i = words.length + (i + 1) := by
      simp only [List.length_cons]
      omega
    rw [hindex, pushAll_cons, ih, push_succ]

variable [DecidableEq ρ]

def popAll : List ρ → (ρ → ω) → Stack ω → (ρ → ω) × Stack ω
  | [], regs, stack => (regs, stack)
  | r :: rs, regs, stack =>
    popAll rs (Function.update regs r (stack 0)) (drop 1 stack)

@[simp]
theorem popAll_nil (regs : ρ → ω) (stack : Stack ω) : popAll [] regs stack = (regs, stack) := rfl

@[simp]
theorem popAll_cons (r : ρ) (rs : List ρ) (regs : ρ → ω) (stack : Stack ω) :
    popAll (r :: rs) regs stack = popAll rs (Function.update regs r (stack 0)) (drop 1 stack) := rfl

theorem popAll_stack (rs : List ρ) (regs : ρ → ω) (stack : Stack ω) :
    (popAll rs regs stack).2 = drop rs.length stack := by
  induction rs generalizing regs stack with
  | nil => simp
  | cons r rs ih =>
    rw [popAll_cons, ih, drop_drop, List.length_cons, Nat.add_comm]

theorem popAll_of_not_mem (rs : List ρ) (regs : ρ → ω) (stack : Stack ω) {r : ρ} (hr : r ∉ rs) :
    (popAll rs regs stack).1 r = regs r := by
  induction rs generalizing regs stack with
  | nil => rfl
  | cons s rs ih =>
    rw [List.mem_cons, not_or] at hr
    rw [popAll_cons, ih _ _ hr.2, Function.update_of_ne hr.1]

theorem popAll_slot (rs : List ρ) (regs : ρ → ω) (stack : Stack ω)
    (hnodup : rs.Nodup) {r : ρ} (hr : r ∈ rs) :
    (popAll rs regs stack).1 r = stack (rs.idxOf r) := by
  induction rs generalizing regs stack with
  | nil => simp at hr
  | cons s rs ih =>
    rw [popAll_cons]
    rw [List.nodup_cons] at hnodup
    by_cases hrs : r = s
    · subst r
      rw [popAll_of_not_mem _ _ _ hnodup.1]
      simp
    · have hmem : r ∈ rs := by
        simpa [hrs] using hr
      have hslot : (s :: rs).idxOf r = rs.idxOf r + 1 :=
        List.idxOf_cons_ne rs (Ne.symm hrs)
      rw [ih _ _ hnodup.2 hmem, hslot, drop_apply, Nat.add_comm]

end RegisterStack
