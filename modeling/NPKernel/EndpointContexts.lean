import Mathlib

/-!
# Contexts for an interrupt endpoint

To configure an endpoint the driver hands the controller an input context: a control
context, the slot context and the contexts of endpoints, each of 8 or 16 words.  The
controller's own device context has no control context in front, so that its entries come
one place earlier.
-/

namespace NPKernel.Xhci

abbrev Page := ℕ → BitVec 32

structure Slot where
  active : Bool
  interruptConfigured : Bool
  speed : BitVec 8
  outputContext : Page

structure Controller where
  active : Bool
  context64 : Bool
  slots : BitVec 8 → Slot

def XHCI_MAX_SLOTS : BitVec 8 := 16

def contextWords (xhci : Controller) : ℕ := if xhci.context64 then 16 else 8

/-- The loop that halves the number of microframes. -/
def microframeExponent (microframes : ℕ) : ℕ :=
  if 1 < microframes then microframeExponent (microframes / 2) + 1 else 0
decreasing_by omega

def interruptIntervalContext (speed interval : BitVec 8) : Option (BitVec 8) :=
  if interval = 0 || 3 < speed.toNat || speed.toNat < 1 then none
  else if speed = 3 then if 16 < interval.toNat then none else some (interval - 1)
  else
    let exponent := microframeExponent (interval.toNat * 8)
    let exponent := if exponent < 3 then 3 else exponent
    some (BitVec.ofNat 8 (if 10 < exponent then 10 else exponent))

def endpointId (endpointAddress : BitVec 8) : ℕ := (endpointAddress &&& 0x0f).toNat * 2 + 1

def store (page : Page) (start : ℕ) (words : List (BitVec 32)) : Page :=
  fun i => if start ≤ i ∧ i < start + words.length then words.getD (i - start) 0 else page i

/-- The input context of `xhci_configure_interrupt_in`, store by store. -/
def inputContext (words : ℕ) (output : Page) (id : ℕ) (interval : BitVec 8)
    (maxPacketSize : BitVec 16) (ring : BitVec 64) : Page :=
  let control := store (fun _ => 0) 1 [(1#32 <<< 0) ||| (1#32 <<< id)]
  let copied := store control words ((List.range words).map fun i => output (words + i))
  let slot := store copied words
    [(copied words &&& ~~~(0x1f#32 <<< 27)) ||| (BitVec.ofNat 32 id <<< 27)]
  store slot ((id + 1) * words)
    [interval.setWidth 32 <<< 16,
      (3#32 <<< 1) ||| (7#32 <<< 3) ||| (maxPacketSize.setWidth 32 <<< 16),
      ring.setWidth 32 ||| 1, (ring >>> 32).setWidth 32,
      8#32 ||| (maxPacketSize.setWidth 32 <<< 16)]

/-- The input context that is submitted, if the call gets that far; `ring` and `report`
are the pages that were allocated. -/
def xhciConfigureInterruptIn (xhci : Controller) (slotId speed endpointAddress : BitVec 8)
    (maxPacketSize : BitVec 16) (interval : BitVec 8) (ring report : Option (BitVec 64)) :
    Option Page :=
  let slot := xhci.slots slotId
  if !xhci.active || slotId = 0 || XHCI_MAX_SLOTS < slotId || endpointAddress &&& 0x80 = 0 ||
      endpointAddress &&& 0x0f = 0 || maxPacketSize = 0 || 1024 < maxPacketSize.toNat then none
  else if !slot.active || slot.interruptConfigured || speed ≠ slot.speed then none
  else if endpointId endpointAddress < 2 || 31 < endpointId endpointAddress then none
  else
    match interruptIntervalContext speed interval, ring, report with
    | some field, some ring, some _ =>
      some (inputContext (contextWords xhci) slot.outputContext (endpointId endpointAddress) field
        maxPacketSize ring)
    | _, _, _ => none

/-! ## What the controller should get -/

/-- The slot context at index 1 is the current one but for the five bits of its entries. -/
def KeepsSlot (words : ℕ) (output : Page) (id : ℕ) (input : Page) : Prop :=
  input words = BitVec.ofNat 5 id ++ (output 0).extractLsb' 0 27 ∧
    ∀ i, 0 < i → i < words → input (words + i) = output i

/-- The interval field, an exponent: high speed gives it, the others count frames. -/
def intervalExponent (speed interval : BitVec 8) : ℕ :=
  if speed = 3 then interval.toNat - 1 else min 10 (max 3 (Nat.log2 (8 * interval.toNat)))

/-- The words of the context of an interrupt endpoint, by their fields. -/
def endpointWords (interval : ℕ) (maxPacketSize : BitVec 16) (ring : BitVec 64) :
    List (BitVec 32) :=
  [BitVec.ofNat 16 interval ++ (0 : BitVec 16),
    maxPacketSize ++ ((0 : BitVec 10) ++ (7 : BitVec 3) ++ (3 : BitVec 2) ++ (0 : BitVec 1)),
    (ring ||| 1).extractLsb' 0 32, (ring ||| 1).extractLsb' 32 32, maxPacketSize ++ (8 : BitVec 16)]

section reading

variable {page : Page} {start i : ℕ} {words : List (BitVec 32)}

theorem store_inside (h : i < words.length) :
    store page start words (start + i) = words.getD i 0 := by
  rw [store, if_pos (by omega), Nat.add_sub_cancel_left]

theorem store_outside (h : i < start ∨ start + words.length ≤ i) :
    store page start words i = page i := by
  rw [store, if_neg (by omega)]

theorem microframeExponent_eq (microframes : ℕ) :
    microframeExponent microframes = Nat.log2 microframes := by
  induction microframes using Nat.strongRecOn with
  | ind microframes ih =>
    rw [microframeExponent, Nat.log2_def]
    split
    · rw [if_pos (by omega), ih _ (by omega)]
    · rw [if_neg (by omega)]

theorem interruptIntervalContext_eq {speed interval field : BitVec 8}
    (h : interruptIntervalContext speed interval = some field) :
    field.toNat = intervalExponent speed interval := by
  unfold interruptIntervalContext at h
  unfold intervalExponent
  split at h
  · simp at h
  next hguard =>
  split at h
  next hhigh =>
    split at h
    · simp at h
    rw [if_pos hhigh]
    cases h
    simp only [Bool.or_eq_true, decide_eq_true_eq, not_or] at hguard
    have hpos : interval.toNat ≠ 0 := fun hzero => hguard.1.1 (BitVec.eq_of_toNat_eq hzero)
    have hlt := interval.isLt
    simp
    omega
  next hlow =>
    rw [if_neg hlow]
    cases h
    rw [microframeExponent_eq, Nat.mul_comm, BitVec.toNat_ofNat]
    split <;> split <;> omega

theorem or_shiftLeft (high low : BitVec 16) :
    low.setWidth 32 ||| high.setWidth 32 <<< 16 = high ++ low := by
  rw [BitVec.append_def, BitVec.shiftLeftZeroExtend_eq, BitVec.or_comm]
  rfl

theorem slotWord_eq (word : BitVec 32) (id : ℕ) :
    (word &&& ~~~(0x1f#32 <<< 27)) ||| (BitVec.ofNat 32 id <<< 27) =
      BitVec.ofNat 5 id ++ word.extractLsb' 0 27 := by
  have hmask : ∀ i < 32, (~~~(0x1f#32 <<< 27)).getLsbD i = decide (i < 27) := by decide
  apply BitVec.eq_of_getLsbD_eq
  intro i hi
  rw [BitVec.getLsbD_append, BitVec.getLsbD_or, BitVec.getLsbD_and, hmask i hi,
    BitVec.getLsbD_shiftLeft, BitVec.getLsbD_ofNat, BitVec.getLsbD_ofNat]
  by_cases hlow : i < 27
  · simp [hlow]
  · have hhigh : i - 27 < 5 := by omega
    have hwide : i - 27 < 32 := by omega
    simp [hlow, hi, hhigh, hwide]

theorem ring_words (ring : BitVec 64) :
    ring.setWidth 32 ||| 1 = (ring ||| 1).extractLsb' 0 32 ∧
      (ring >>> 32).setWidth 32 = (ring ||| 1).extractLsb' 32 32 := by
  constructor
  · ext i hi
    simp
  · ext i hi
    simp

end reading

section configuring

variable {words id : ℕ} {output : Page} {field : BitVec 8} {maxPacketSize : BitVec 16}
  {ring : BitVec 64}

theorem inputContext_slot (hid : 3 ≤ id) (hwords : 8 ≤ words) {i : ℕ} (hi : i < words) :
    inputContext words output id field maxPacketSize ring (words + i) =
      if i = 0 then BitVec.ofNat 5 id ++ (output words).extractLsb' 0 27
      else output (words + i) := by
  have hbefore : words + i < (id + 1) * words := by nlinarith
  have hcopied : ∀ page, store page words ((List.range words).map fun i => output (words + i))
      (words + i) = output (words + i) := by
    intro page
    rw [store_inside (by simpa using hi)]
    simp [hi]
  unfold inputContext
  rw [store_outside (.inl hbefore)]
  split
  next hzero =>
    subst hzero
    rw [store_inside (by simp)]
    simp only [Nat.add_zero] at hcopied ⊢
    rw [List.getD_cons_zero, hcopied, slotWord_eq]
  · rw [store_outside (.inr (by simp; omega)), hcopied]

theorem inputContext_endpoint (hid : 3 ≤ id) (hwords : 8 ≤ words) (i : ℕ) :
    inputContext words output id field maxPacketSize ring ((id + 1) * words + i) =
      (endpointWords field.toNat maxPacketSize ring).getD i 0 := by
  have hfield : field.setWidth 32 <<< 16 = BitVec.ofNat 16 field.toNat ++ (0 : BitVec 16) := by
    rw [← or_shiftLeft]
    simp
  have hpacket : (3#32 <<< 1) ||| (7#32 <<< 3) ||| (maxPacketSize.setWidth 32 <<< 16) =
      maxPacketSize ++ ((0 : BitVec 10) ++ (7 : BitVec 3) ++ (3 : BitVec 2) ++ (0 : BitVec 1)) :=
    or_shiftLeft maxPacketSize 0x3e
  have hlength : 8#32 ||| (maxPacketSize.setWidth 32 <<< 16) = maxPacketSize ++ (8 : BitVec 16) :=
    or_shiftLeft maxPacketSize 8
  unfold inputContext
  by_cases hfive : i < 5
  · rw [store_inside (by simpa using hfive), hfield, hpacket, hlength, (ring_words ring).1,
      (ring_words ring).2]
    rfl
  · have hbehind : 2 * words ≤ (id + 1) * words := by nlinarith
    rw [store_outside (.inr (by simp; omega)), store_outside (.inr (by simp; omega)),
      store_outside (.inr (by simp; omega)), store_outside (.inr (by simp; omega))]
    rw [List.getD_eq_getElem?_getD, List.getElem?_eq_none (by simp [endpointWords]; omega)]
    rfl

end configuring

/-- The input context describes the endpoint and keeps the slot context except where the
first endpoint's context, which is copied in its place, differs from it. -/
theorem endpoint_configuration_iff (xhci : Controller) (slotId speed endpointAddress : BitVec 8)
    (maxPacketSize : BitVec 16) (interval : BitVec 8) (ring : BitVec 64)
    (report : Option (BitVec 64)) (input : Page)
    (h : xhciConfigureInterruptIn xhci slotId speed endpointAddress maxPacketSize interval
      (some ring) report = some input) :
    (KeepsSlot (contextWords xhci) (xhci.slots slotId).outputContext (endpointId endpointAddress)
        input ∧
      ∀ i < contextWords xhci,
        input ((endpointId endpointAddress + 1) * contextWords xhci + i) =
          (endpointWords (intervalExponent speed interval) maxPacketSize ring).getD i 0) ↔
      ((xhci.slots slotId).outputContext (contextWords xhci)).extractLsb' 0 27 =
          ((xhci.slots slotId).outputContext 0).extractLsb' 0 27 ∧
        ∀ i, 0 < i → i < contextWords xhci →
          (xhci.slots slotId).outputContext (contextWords xhci + i) =
            (xhci.slots slotId).outputContext i := by
  have hwords : 8 ≤ contextWords xhci := by
    unfold contextWords
    split <;> decide
  unfold xhciConfigureInterruptIn at h
  dsimp only at h
  split at h
  · simp at h
  next hguard =>
  split at h
  · simp at h
  split at h
  · simp at h
  split at h
  next field ring' _ hfield hring =>
    have hid : 3 ≤ endpointId endpointAddress := by
      simp only [Bool.or_eq_true, decide_eq_true_eq, not_or] at hguard
      have hnumber : (endpointAddress &&& 0x0f).toNat ≠ 0 :=
        fun hzero => hguard.1.1.2 (BitVec.eq_of_toNat_eq hzero)
      unfold endpointId
      omega
    cases hring
    cases h
    rw [← interruptIntervalContext_eq hfield]
    have hslot := fun {i} => @inputContext_slot (contextWords xhci) (endpointId endpointAddress)
      (xhci.slots slotId).outputContext field maxPacketSize ring hid hwords i
    have hzero := hslot (by omega : 0 < contextWords xhci)
    rw [Nat.add_zero, if_pos rfl] at hzero
    rw [and_iff_left fun i _ => inputContext_endpoint hid hwords i, KeepsSlot, hzero]
    refine and_congr ?_ (forall₃_congr fun i hpos hi => ?_)
    · constructor
      · intro heq
        apply BitVec.eq_of_getLsbD_eq
        intro i hi
        have hbit := congrArg (fun word => word.getLsbD i) heq
        simpa only [BitVec.getLsbD_append, hi, if_true] using hbit
      · intro heq
        rw [heq]
    · rw [hslot hi, if_neg (by omega)]
  · simp at h

/-- A keyboard in slot 1 whose device context is given. -/
def keyboardController (output : Page) : Controller :=
  { active := true, context64 := false
    slots := fun _ => { active := true, interruptConfigured := false, speed := 1
                        outputContext := output } }

/-- A device context in which every context has the speed and the port of the first one. -/
def repeatedContext : Page := fun i =>
  if i % 8 = 0 then 0x08300000 else if i % 8 = 1 then 0x10000 else 0

theorem endpoint_configuration_iff_repeated :
    ∃ input, xhciConfigureInterruptIn (keyboardController repeatedContext) 1 1 0x81 8 10
        (some 0x1000) (some 0x2000) = some input ∧
      KeepsSlot 8 repeatedContext 3 input ∧
      ∀ i < 8, input (4 * 8 + i) = (endpointWords (intervalExponent 1 10) 8 0x1000).getD i 0 := by
  refine ⟨_, rfl, (endpoint_configuration_iff (keyboardController repeatedContext) 1 1 0x81 8 10
    0x1000 (some 0x2000) _ rfl).2 ⟨rfl, ?_⟩⟩
  intro i _ _
  change repeatedContext (8 + i) = repeatedContext i
  unfold repeatedContext
  rw [Nat.add_mod_left]

/-- Only the slot context has something in its second word, and it is not kept. -/
theorem slot_context_lost :
    ∃ input, xhciConfigureInterruptIn (keyboardController fun i => if i = 1 then 0x10000 else 0)
        1 1 0x81 8 10 (some 0x1000) (some 0x2000) = some input ∧
      input (8 + 1) ≠ 0x10000 := by
  refine ⟨_, rfl, ?_⟩
  decide

end NPKernel.Xhci
