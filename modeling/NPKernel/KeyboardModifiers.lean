import NPKernel.PrefixRuns

/-!
# Modifier keys

Scan codes of a PS/2 keyboard set the flags that the translation of a key uses.  Two shift keys,
and the shift codes that a keyboard sends around its navigation keys, set one flag.
-/

namespace NPKernel.Typing

abbrev ScanCode := BitVec 8

def ScanCode.key (code : ScanCode) : ℕ := (code &&& 0x7f).toNat

structure Flags where
  shiftDown : Bool
  altgrDown : Bool
  capsLock : Bool
  extended : Bool

/-- What `keyboard_irq` does to the flags. -/
def irqFlags (flags : Flags) (code : ScanCode) : Flags :=
  if code = 0xe0 then { flags with extended := true }
  else if code.key = 0x2a ∨ code.key = 0x36 then
    { flags with shiftDown := !code.msb, extended := false }
  else if flags.extended ∧ code.key = 0x38 then
    { flags with altgrDown := !code.msb, extended := false }
  else if !code.msb ∧ code.key = 0x3a then
    { flags with capsLock := !flags.capsLock, extended := false }
  else { flags with extended := false }

/-- The flags after the codes; `keyboard_init` clears all of them. -/
def received (codes : List ScanCode) : Flags :=
  codes.foldl irqFlags ⟨false, false, false, false⟩

/-- The modifier keys that are down, and whether the last code was a prefix. -/
structure Held where
  prefixed : Bool
  leftShift : Bool
  rightShift : Bool
  rightAlt : Bool

def Held.next (held : Held) (code : ScanCode) : Held where
  prefixed := code = 0xe0
  leftShift := if !held.prefixed ∧ code.key = 0x2a then !code.msb else held.leftShift
  rightShift := if !held.prefixed ∧ code.key = 0x36 then !code.msb else held.rightShift
  rightAlt := if held.prefixed ∧ code.key = 0x38 then !code.msb else held.rightAlt

def Held.shift (held : Held) : Bool := held.leftShift || held.rightShift

def heldAfter (codes : List ScanCode) : Held :=
  codes.foldl Held.next ⟨false, false, false, false⟩

structure ModifiersTracked (codes : List ScanCode) : Prop where
  shift : ∀ front, front <+: codes → (received front).shiftDown = (heldAfter front).shift
  altgr : ∀ front, front <+: codes → (received front).altgrDown = (heldAfter front).rightAlt
  prefixed : ∀ front code, front ++ [code] <+: codes → (heldAfter front).prefixed →
    (received (front ++ [code])).shiftDown = (received front).shiftDown

/-- A shift code leaves the flag as the keys are: a prefixed one agrees with them, and a shift
key is released while the other one is up. -/
@[mk_iff]
structure ShiftAgrees (held : Held) (code : ScanCode) : Prop where
  prefixed : held.prefixed → code.key = 0x2a ∨ code.key = 0x36 → held.shift = !code.msb
  left : held.prefixed = false → code.key = 0x2a → code.msb → held.rightShift = false
  right : held.prefixed = false → code.key = 0x36 → code.msb → held.leftShift = false

theorem irqFlags_shiftDown (flags : Flags) (code : ScanCode) :
    (irqFlags flags code).shiftDown =
      if code.key = 0x2a ∨ code.key = 0x36 then !code.msb else flags.shiftDown := by
  unfold irqFlags
  split
  next hprefix =>
    subst hprefix
    rfl
  split
  · rfl
  split
  · rfl
  split <;> rfl

theorem irqFlags_altgrDown (flags : Flags) (code : ScanCode) :
    (irqFlags flags code).altgrDown =
      if flags.extended ∧ code.key = 0x38 then !code.msb else flags.altgrDown := by
  unfold irqFlags
  split
  next hprefix =>
    subst hprefix
    rw [if_neg (by simp [ScanCode.key])]
  split
  next hshift => rw [if_neg (by omega)]
  split
  · rfl
  split <;> rfl

theorem irqFlags_extended (flags : Flags) (code : ScanCode) :
    (irqFlags flags code).extended = decide (code = 0xe0) := by
  unfold irqFlags
  split
  next hprefix => exact (decide_eq_true hprefix).symm
  next hprefix =>
  rw [decide_eq_false hprefix]
  split
  · rfl
  split
  · rfl
  split <;> rfl

theorem irqFlags_shift_iff {flags : Flags} {held : Held} (hshift : flags.shiftDown = held.shift)
    (code : ScanCode) :
    (irqFlags flags code).shiftDown = (held.next code).shift ↔ ShiftAgrees held code := by
  rw [irqFlags_shiftDown, hshift, shiftAgrees_iff]
  unfold Held.shift Held.next
  by_cases hleft : code.key = 0x2a
  · cases held.prefixed <;> cases code.msb <;> simp [hleft]
  by_cases hright : code.key = 0x36
  · cases held.prefixed <;> cases code.msb <;> simp [hright]
  · simp [hleft, hright]

theorem received_tracked (codes : List ScanCode) :
    (received codes).extended = (heldAfter codes).prefixed ∧
      (received codes).altgrDown = (heldAfter codes).rightAlt := by
  induction codes using List.reverseRecOn with
  | nil => exact ⟨rfl, rfl⟩
  | append_singleton front code ih =>
    unfold received heldAfter at ih ⊢
    rw [List.foldl_append, List.foldl_append]
    dsimp only [List.foldl_cons, List.foldl_nil, Held.next]
    rw [irqFlags_extended, irqFlags_altgrDown, ih.1, ih.2]
    exact ⟨rfl, rfl⟩

theorem modifiers_tracked_iff (codes : List ScanCode) :
    ModifiersTracked codes ↔
      ∀ front code, front ++ [code] <+: codes → ShiftAgrees (heldAfter front) code := by
  have hruns : (∀ front, front <+: codes →
      (received front).shiftDown = (heldAfter front).shift) ↔
        ∀ front code, front ++ [code] <+: codes → ShiftAgrees (heldAfter front) code := by
    apply PrefixRuns.related_iff
      (fun (flags : Flags) (held : Held) => flags.shiftDown = held.shift) (by rfl)
    intro flags held code hshift
    exact irqFlags_shift_iff hshift code
  constructor
  · intro h
    exact hruns.1 h.shift
  · intro h
    have hshift := hruns.2 h
    constructor
    · exact hshift
    · intro front _
      exact (received_tracked front).2
    · intro front code hcodes hprefixed
      rw [hshift _ hcodes, hshift _ ((List.prefix_append front [code]).trans hcodes)]
      unfold heldAfter at hprefixed ⊢
      simp [Held.shift, Held.next, hprefixed]

/-- Both shift keys are pressed and one is released. -/
theorem other_shift_forgotten :
    (received [0x2a, 0x36, 0xaa]).shiftDown = false ∧
      (heldAfter [0x2a, 0x36, 0xaa]).shift = true := by
  decide

end NPKernel.Typing
