import NPKernel.FutexWaits

/-!
# How long a timed call waits

A timeout given in seconds and nanoseconds, or in milliseconds, becomes a number of timer
ticks, and the call reports that it is over when `timer_ticks() - deadline`, read as a signed
number, is not negative.  `futex_timespec_to_ticks` and `sys_nanosleep` drop a fraction of a
tick, and `sys_poll_common` and `sys_epoll_wait` multiply before they divide.
-/

namespace NPKernel

open Kernel (deadlinePassed)

/-- A `timespec` that the calls accept. -/
def validTimespec (seconds nanoseconds : Word) : Bool :=
  0 ≤ seconds.toInt && 0 ≤ nanoseconds.toInt && nanoseconds.toInt < 1000000000

/-- The duration that `sys_nanosleep` gives to `timer_sleep_ticks`. -/
def nanosleepTicks (seconds nanoseconds : Word) : Word :=
  let frequency := BitVec.ofNat 64 TIMER_FREQUENCY
  let ticks := seconds * frequency + nanoseconds * frequency / 1000000000
  if ticks = 0 ∧ (seconds ≠ 0 ∨ nanoseconds ≠ 0) then 1 else ticks

/-- `timer_sleep_ticks` has returned when the timer is at `now`. -/
def timerSleepTicks (start duration now : Word) : Bool :=
  duration = 0 || deadlinePassed now (start + duration)

/-- `poll_timeout_ms` of a pointer to a `timespec`. -/
def pollTimeoutMs (seconds nanoseconds : Word) : Option Word :=
  if !validTimespec seconds nanoseconds || INT64_MAX / 1000 < seconds.toNat then none
  else
    let milliseconds := seconds * 1000 + nanoseconds / 1000000
    some (if nanoseconds % 1000000 ≠ 0 then milliseconds + 1 else milliseconds)

def millisecondTicks (timeoutMs : Word) : Word :=
  let ticks := (timeoutMs * BitVec.ofNat 64 TIMER_FREQUENCY + 999) / 1000
  if ticks = 0 then 1 else ticks

/-- The test of the loops of `sys_poll_common` and `sys_epoll_wait` when nothing is ready. -/
def pollOver (start timeoutMs now : Word) : Bool :=
  timeoutMs = 0 || 0 < timeoutMs.toInt && deadlinePassed now (start + millisecondTicks timeoutMs)

/-- A call with a timeout, as user memory has it. -/
inductive TimedCall where
  | futexWait (answers : Answers) (userTimeout seconds nanoseconds : Word)
  | nanosleep (seconds nanoseconds : Word)
  | poll (timeoutMs : Word)
  | ppoll (seconds nanoseconds : Word)
  | epollWait (timeoutMs : Word)

namespace TimedCall

/-- The call waits for its timeout. -/
def Accepted : TimedCall → Prop
  | .futexWait answers userTimeout seconds nanoseconds =>
    userTimeout ≠ 0 ∧
      (answers.access.vmmCopyin () userTimeout 2).2 = some [seconds, nanoseconds] ∧
      futexTimespecToTicks answers userTimeout ≠ none
  | .nanosleep seconds nanoseconds => validTimespec seconds nanoseconds = true
  | .poll timeoutMs | .epollWait timeoutMs => 0 < timeoutMs.toInt
  | .ppoll seconds nanoseconds => pollTimeoutMs seconds nanoseconds ≠ none

/-- The call, made when the timer was at `start`, reports that its time is over when
`elapsed` ticks have passed. -/
def reports (start : Word) (elapsed : ℕ) : TimedCall → Bool
  | .futexWait answers userTimeout _ _ =>
    match futexTimespecToTicks answers userTimeout with
    | none => false
    | some ticks =>
      ticks = 0 || deadlinePassed (start + BitVec.ofNat 64 elapsed) (start + BitVec.ofNat 64 ticks)
  | .nanosleep seconds nanoseconds =>
    timerSleepTicks start (nanosleepTicks seconds nanoseconds) (start + BitVec.ofNat 64 elapsed)
  | .poll timeoutMs | .epollWait timeoutMs =>
    pollOver start timeoutMs (start + BitVec.ofNat 64 elapsed)
  | .ppoll seconds nanoseconds =>
    match pollTimeoutMs seconds nanoseconds with
    | none => false
    | some timeoutMs => pollOver start timeoutMs (start + BitVec.ofNat 64 elapsed)

def asked : TimedCall → ℕ
  | .futexWait _ _ seconds nanoseconds | .nanosleep seconds nanoseconds
  | .ppoll seconds nanoseconds => seconds.toNat * 1000000000 + nanoseconds.toNat
  | .poll timeoutMs | .epollWait timeoutMs => timeoutMs.toNat * 1000000

def askedTicks (call : TimedCall) : ℕ := (call.asked * TIMER_FREQUENCY + 999999999) / 1000000000

/-- A whole number of ticks below the reach of a signed comparison, or less than one tick. -/
def WholeTicks (seconds nanoseconds : ℕ) : Prop :=
  (nanoseconds * TIMER_FREQUENCY % 1000000000 = 0 ∨
      seconds = 0 ∧ nanoseconds * TIMER_FREQUENCY < 1000000000) ∧
    seconds * TIMER_FREQUENCY + nanoseconds * TIMER_FREQUENCY / 1000000000 ≤ 2 ^ 63

/-- The milliseconds can be multiplied by the frequency in 64 bits. -/
def Multiplies (milliseconds : ℕ) : Prop := milliseconds * TIMER_FREQUENCY + 999 < 2 ^ 64

/-- The condition under which a call is not over early.  A `ppoll` whose milliseconds do
not fit in 63 bits has no timeout. -/
def Exact : TimedCall → Prop
  | .futexWait _ _ seconds nanoseconds | .nanosleep seconds nanoseconds =>
    WholeTicks seconds.toNat nanoseconds.toNat
  | .poll timeoutMs | .epollWait timeoutMs => Multiplies timeoutMs.toNat
  | .ppoll seconds nanoseconds =>
    2 ^ 63 ≤ seconds.toNat * 1000 + (nanoseconds.toNat + 999999) / 1000000 ∨
      Multiplies (seconds.toNat * 1000 + (nanoseconds.toNat + 999999) / 1000000)

end TimedCall

/-! ## The signed comparison -/

theorem deadlinePassed_eq (start : Word) (ticks elapsed : ℕ) :
    deadlinePassed (start + BitVec.ofNat 64 elapsed) (start + BitVec.ofNat 64 ticks) =
      decide ((2 ^ 64 - ticks % 2 ^ 64 + elapsed) % 2 ^ 64 < 2 ^ 63) := by
  unfold deadlinePassed
  rw [decide_eq_decide, BitVec.toInt_pos_iff, BitVec.toNat_sub, BitVec.toNat_add,
    BitVec.toNat_add, BitVec.toNat_ofNat, BitVec.toNat_ofNat]
  omega

variable {ticks asked : ℕ} {seconds nanoseconds timeoutMs : Word}

/-- A deadline at most half of the range of the timer away is kept; a later one has passed
at once. -/
theorem not_early_iff (start : Word) (hpos : 0 < asked) (hticks : ticks < 2 ^ 64) :
    (∀ elapsed, deadlinePassed (start + BitVec.ofNat 64 elapsed)
        (start + BitVec.ofNat 64 ticks) = true → asked ≤ elapsed) ↔
      asked ≤ ticks ∧ ticks ≤ 2 ^ 63 := by
  simp only [deadlinePassed_eq, decide_eq_true_iff]
  constructor
  · intro h
    have hend := h ticks (by omega)
    refine ⟨hend, ?_⟩
    by_contra hfar
    have hstart := h 0 (by omega)
    omega
  · rintro ⟨hasked, hnear⟩ elapsed hpassed
    by_contra hearly
    omega

/-! ## Seconds and nanoseconds -/

theorem validTimespec_iff :
    validTimespec seconds nanoseconds = true ↔
      seconds.toNat < 2 ^ 63 ∧ nanoseconds.toNat < 1000000000 := by
  unfold validTimespec
  have hseconds := @BitVec.toInt_pos_iff 64 seconds
  have hnanoseconds := @BitVec.toInt_pos_iff 64 nanoseconds
  have hvalue := nanoseconds.toInt_eq_toNat_cond
  simp only [Bool.and_eq_true, decide_eq_true_iff]
  split at hvalue <;> omega

/-- What becomes of a `timespec` in ticks: the fraction of a tick is dropped, unless it is
all there is. -/
def floorTicks (seconds nanoseconds : ℕ) : ℕ :=
  let ticks := seconds * TIMER_FREQUENCY + nanoseconds * TIMER_FREQUENCY / 1000000000
  if ticks = 0 ∧ (seconds ≠ 0 ∨ nanoseconds ≠ 0) then 1 else ticks

/-- The ticks that are asked for are kept by the ticks there are, if there are none to
drop and the deadline is not too far. -/
theorem floorTicks_iff {seconds nanoseconds : ℕ} (hnanoseconds : nanoseconds < 1000000000)
    (hasked : asked = ((seconds * 1000000000 + nanoseconds) * TIMER_FREQUENCY + 999999999) /
      1000000000) (hpos : 0 < asked) :
    asked ≤ floorTicks seconds nanoseconds ∧ floorTicks seconds nanoseconds ≤ 2 ^ 63 ↔
      TimedCall.WholeTicks seconds nanoseconds := by
  unfold floorTicks TimedCall.WholeTicks
  dsimp only [TIMER_FREQUENCY] at hasked ⊢
  split <;> omega

theorem floorTicks_ne_zero {seconds nanoseconds : ℕ}
    (hasked : asked = ((seconds * 1000000000 + nanoseconds) * TIMER_FREQUENCY + 999999999) /
      1000000000) (hpos : 0 < asked) : floorTicks seconds nanoseconds ≠ 0 := by
  unfold floorTicks
  dsimp only [TIMER_FREQUENCY] at hasked ⊢
  split <;> omega

theorem floorTicks_lt {seconds nanoseconds : ℕ}
    (hfits : seconds * TIMER_FREQUENCY + nanoseconds * TIMER_FREQUENCY / 1000000000 < 2 ^ 64) :
    floorTicks seconds nanoseconds < 2 ^ 64 := by
  unfold floorTicks
  dsimp only
  split <;> omega

theorem nanosleepTicks_eq (hnanoseconds : nanoseconds.toNat < 1000000000)
    (hfits : seconds.toNat * TIMER_FREQUENCY + nanoseconds.toNat * TIMER_FREQUENCY / 1000000000 <
      2 ^ 64) :
    nanosleepTicks seconds nanoseconds =
      BitVec.ofNat 64 (floorTicks seconds.toNat nanoseconds.toNat) := by
  have hticks : (seconds * BitVec.ofNat 64 TIMER_FREQUENCY +
      nanoseconds * BitVec.ofNat 64 TIMER_FREQUENCY / 1000000000).toNat =
        seconds.toNat * TIMER_FREQUENCY + nanoseconds.toNat * TIMER_FREQUENCY / 1000000000 := by
    have hbillion : (1000000000 : Word).toNat = 1000000000 := rfl
    have hfrequency : (BitVec.ofNat 64 TIMER_FREQUENCY).toNat = TIMER_FREQUENCY := rfl
    rw [BitVec.toNat_add, BitVec.toNat_udiv, BitVec.toNat_mul, BitVec.toNat_mul, hbillion,
      hfrequency]
    dsimp only [TIMER_FREQUENCY] at hfits ⊢
    rw [Nat.mod_eq_of_lt (by omega : seconds.toNat * 100 < 2 ^ 64),
      Nat.mod_eq_of_lt (by omega : nanoseconds.toNat * 100 < 2 ^ 64), Nat.mod_eq_of_lt hfits]
  have hzero : ∀ word : Word, word = 0 ↔ word.toNat = 0 := fun word => BitVec.toNat_eq
  apply BitVec.eq_of_toNat_eq
  unfold nanosleepTicks floorTicks
  dsimp only
  simp only [ne_eq, hzero, hticks]
  rw [apply_ite BitVec.toNat, hticks, BitVec.toNat_ofNat]
  split
  · rfl
  · exact (Nat.mod_eq_of_lt hfits).symm

theorem futexTimespecToTicks_eq {answers : Answers} {userTimeout : Word}
    (hpointer : userTimeout ≠ 0)
    (hcopy : (answers.access.vmmCopyin () userTimeout 2).2 = some [seconds, nanoseconds])
    (h : futexTimespecToTicks answers userTimeout = some ticks) :
    validTimespec seconds nanoseconds = true ∧
      seconds.toNat * TIMER_FREQUENCY + nanoseconds.toNat * TIMER_FREQUENCY / 1000000000 < 2 ^ 64 ∧
      ticks = floorTicks seconds.toNat nanoseconds.toNat := by
  have hzero : ∀ word : Word, word = 0 ↔ word.toNat = 0 := fun word => BitVec.toNat_eq
  unfold futexTimespecToTicks at h
  rw [if_neg hpointer, hcopy] at h
  dsimp only at h
  split at h
  · cases h
  next hvalid =>
  split at h
  · cases h
  next hseconds =>
  split at h
  · cases h
  next hsum =>
  have hspec : validTimespec seconds nanoseconds = true := by
    unfold validTimespec
    simp only [Bool.and_eq_true, decide_eq_true_iff]
    omega
  refine ⟨hspec, ?_, ?_⟩
  · dsimp only [UINT64_MAX, TIMER_FREQUENCY] at hseconds hsum ⊢
    omega
  · unfold floorTicks
    simp only [ne_eq, hzero] at h
    dsimp only
    rw [← apply_ite some] at h
    exact (Option.some.inj h).symm

/-! ## Milliseconds -/

theorem millisecondTicks_eq (timeoutMs : Word) :
    millisecondTicks timeoutMs =
      BitVec.ofNat 64 (max 1 ((timeoutMs.toNat * TIMER_FREQUENCY + 999) % 2 ^ 64 / 1000)) := by
  have hticks : ((timeoutMs * BitVec.ofNat 64 TIMER_FREQUENCY + 999) / 1000).toNat =
      (timeoutMs.toNat * TIMER_FREQUENCY + 999) % 2 ^ 64 / 1000 := by
    have hround : (999 : Word).toNat = 999 := rfl
    have hthousand : (1000 : Word).toNat = 1000 := rfl
    have hfrequency : (BitVec.ofNat 64 TIMER_FREQUENCY).toNat = TIMER_FREQUENCY := rfl
    rw [BitVec.toNat_udiv, BitVec.toNat_add, BitVec.toNat_mul, hround, hthousand, hfrequency,
      Nat.mod_add_mod]
  have hzero : ∀ word : Word, word = 0 ↔ word.toNat = 0 := fun word => BitVec.toNat_eq
  apply BitVec.eq_of_toNat_eq
  unfold millisecondTicks
  dsimp only
  simp only [hzero, hticks]
  rw [apply_ite BitVec.toNat, hticks, BitVec.toNat_ofNat]
  have hone : (1 : Word).toNat = 1 := rfl
  split <;> omega

theorem pollTimeoutMs_eq (h : pollTimeoutMs seconds nanoseconds = some timeoutMs) :
    nanoseconds.toNat < 1000000000 ∧
      timeoutMs.toNat = seconds.toNat * 1000 + (nanoseconds.toNat + 999999) / 1000000 := by
  unfold pollTimeoutMs at h
  split at h
  · cases h
  next hvalid =>
  rw [Bool.or_eq_true, not_or, Bool.not_eq_true', Bool.not_eq_false, validTimespec_iff,
    decide_eq_true_iff] at hvalid
  obtain ⟨⟨-, hnanoseconds⟩, hseconds⟩ := hvalid
  have hmax : INT64_MAX / 1000 = 9223372036854775 := rfl
  have hmilliseconds : (seconds * 1000 + nanoseconds / 1000000).toNat =
      seconds.toNat * 1000 + nanoseconds.toNat / 1000000 := by
    have hthousand : (1000 : Word).toNat = 1000 := rfl
    have hmillion : (1000000 : Word).toNat = 1000000 := rfl
    rw [BitVec.toNat_add, BitVec.toNat_mul, BitVec.toNat_udiv, hthousand, hmillion,
      Nat.mod_add_mod]
    apply Nat.mod_eq_of_lt
    omega
  have hwhole : nanoseconds % 1000000 = 0 ↔ nanoseconds.toNat % 1000000 = 0 := BitVec.toNat_eq
  refine ⟨hnanoseconds, ?_⟩
  rw [← Option.some.inj h]
  split
  next hpart =>
    rw [ne_eq, hwhole] at hpart
    have hone : (1 : Word).toNat = 1 := rfl
    rw [BitVec.toNat_add, hmilliseconds, hone]
    omega
  next hpart =>
    rw [not_not, hwhole] at hpart
    rw [hmilliseconds]
    omega

theorem pollOver_far {start now : Word} (hfar : 2 ^ 63 ≤ timeoutMs.toNat) :
    pollOver start timeoutMs now = false := by
  have hnegative : ¬0 < timeoutMs.toInt := by
    intro hpositive
    have hnear := BitVec.toInt_pos_iff.1 hpositive.le
    omega
  have hnonzero : timeoutMs ≠ 0 := by
    intro hzero
    rw [hzero] at hfar
    exact absurd hfar (by decide)
  rw [pollOver, decide_eq_false hnonzero, decide_eq_false hnegative]
  rfl

/-- A timeout in milliseconds is kept if its ticks can be computed in 64 bits. -/
theorem pollOver_iff (start : Word) (hms : timeoutMs.toNat < 2 ^ 63)
    (hlow : (timeoutMs.toNat - 1) * TIMER_FREQUENCY ≤ asked * 1000)
    (hhigh : asked * 1000 ≤ timeoutMs.toNat * TIMER_FREQUENCY + 999) :
    (∀ elapsed, pollOver start timeoutMs (start + BitVec.ofNat 64 elapsed) = true →
        asked ≤ elapsed) ↔ TimedCall.Multiplies timeoutMs.toNat := by
  unfold TimedCall.Multiplies
  dsimp only [TIMER_FREQUENCY] at hlow hhigh ⊢
  rcases Nat.eq_zero_or_pos asked with hnone | hpos
  · constructor
    · intro _
      omega
    · intro _ elapsed _
      omega
  · have hpositive : 0 < timeoutMs.toInt := by
      rw [BitVec.toInt_eq_toNat_cond, if_pos (by omega)]
      omega
    have hnonzero : timeoutMs ≠ 0 := by
      intro hms0
      rw [hms0] at hpositive
      exact absurd hpositive (by decide)
    have hexpires : ∀ now, pollOver start timeoutMs now =
        deadlinePassed now (start + millisecondTicks timeoutMs) := by
      intro now
      rw [pollOver, decide_eq_false hnonzero, decide_eq_true hpositive, Bool.false_or,
        Bool.true_and]
    simp only [hexpires, millisecondTicks_eq]
    rw [not_early_iff start hpos (by omega)]
    dsimp only [TIMER_FREQUENCY]
    by_cases hfits : timeoutMs.toNat * 100 + 999 < 2 ^ 64
    · rw [Nat.mod_eq_of_lt hfits]
      omega
    · -- The product wraps, and what is left of it is too small.
      have hwraps : (timeoutMs.toNat * 100 + 999) % 2 ^ 64 ≤
          timeoutMs.toNat * 100 + 999 - 2 ^ 64 := by
        rw [Nat.mod_eq_sub_mod (Nat.le_of_not_lt hfits)]
        exact Nat.mod_le _ _
      omega

/-! ## Every call -/

namespace TimedCall

theorem wholeTicks_iff (start : Word) {seconds nanoseconds asked : ℕ}
    (hnanoseconds : nanoseconds < 1000000000)
    (hfits : seconds * TIMER_FREQUENCY + nanoseconds * TIMER_FREQUENCY / 1000000000 < 2 ^ 64)
    (hasked : asked = ((seconds * 1000000000 + nanoseconds) * TIMER_FREQUENCY + 999999999) /
      1000000000) {reported : ℕ → Bool}
    (hreported : 0 < asked → ∀ elapsed, reported elapsed = deadlinePassed
      (start + BitVec.ofNat 64 elapsed)
      (start + BitVec.ofNat 64 (floorTicks seconds nanoseconds))) :
    (∀ elapsed, reported elapsed = true → asked ≤ elapsed) ↔ WholeTicks seconds nanoseconds := by
  rcases Nat.eq_zero_or_pos asked with hnone | hpos
  · have hseconds : seconds = 0 ∧ nanoseconds = 0 := by
      dsimp only [TIMER_FREQUENCY] at hasked
      omega
    constructor
    · intro _
      rw [hseconds.1, hseconds.2]
      exact ⟨Or.inl (by decide), by decide⟩
    · intro _ elapsed _
      omega
  · simp only [hreported hpos]
    rw [not_early_iff start hpos (floorTicks_lt hfits)]
    exact floorTicks_iff hnanoseconds hasked hpos

theorem millisecond_iff (start : Word) {timeoutMs : Word} (hpositive : 0 < timeoutMs.toInt) :
    (∀ elapsed, pollOver start timeoutMs (start + BitVec.ofNat 64 elapsed) = true →
        (timeoutMs.toNat * 1000000 * TIMER_FREQUENCY + 999999999) / 1000000000 ≤ elapsed) ↔
      Multiplies timeoutMs.toNat := by
  have hms := BitVec.toInt_pos_iff.1 hpositive.le
  apply pollOver_iff start (by omega)
  · dsimp only [TIMER_FREQUENCY]
    omega
  · dsimp only [TIMER_FREQUENCY]
    omega

/-- A call reports no timeout before the ticks that were asked for have passed, exactly if
its conversion to ticks is exact. -/
theorem reports_not_early_iff (call : TimedCall) (start : Word) (haccepted : call.Accepted)
    (hfits : start.toNat + call.askedTicks < 2 ^ 64) :
    (∀ elapsed, call.reports start elapsed = true → call.askedTicks ≤ elapsed) ↔ call.Exact := by
  cases call with
  | futexWait answers userTimeout seconds nanoseconds =>
    obtain ⟨hpointer, hcopy, haccepted⟩ := haccepted
    obtain ⟨ticks, hticks⟩ := Option.ne_none_iff_exists'.1 haccepted
    obtain ⟨hvalid, hsum, rfl⟩ := futexTimespecToTicks_eq hpointer hcopy hticks
    apply wholeTicks_iff start (validTimespec_iff.1 hvalid).2 hsum rfl
    intro hpos elapsed
    have hsome : floorTicks seconds.toNat nanoseconds.toNat ≠ 0 := floorTicks_ne_zero rfl hpos
    simp [reports, hticks, hsome]
  | nanosleep seconds nanoseconds =>
    obtain ⟨hseconds, hnanoseconds⟩ := validTimespec_iff.1 haccepted
    have hsum : seconds.toNat * TIMER_FREQUENCY +
        nanoseconds.toNat * TIMER_FREQUENCY / 1000000000 < 2 ^ 64 := by
      unfold askedTicks asked at hfits
      dsimp only [TIMER_FREQUENCY] at hfits ⊢
      omega
    apply wholeTicks_iff start hnanoseconds hsum rfl
    intro hpos elapsed
    have hsome : floorTicks seconds.toNat nanoseconds.toNat ≠ 0 := floorTicks_ne_zero rfl hpos
    have hduration : BitVec.ofNat 64 (floorTicks seconds.toNat nanoseconds.toNat) ≠ 0 := by
      intro hzero
      have hvalue := congrArg BitVec.toNat hzero
      rw [BitVec.toNat_ofNat, Nat.mod_eq_of_lt (floorTicks_lt hsum)] at hvalue
      exact hsome hvalue
    rw [reports, timerSleepTicks, nanosleepTicks_eq hnanoseconds hsum, decide_eq_false hduration,
      Bool.false_or]
  | poll timeoutMs => exact millisecond_iff start haccepted
  | ppoll seconds nanoseconds =>
    obtain ⟨timeoutMs, hms⟩ := Option.ne_none_iff_exists'.1 haccepted
    obtain ⟨hseconds, hvalue⟩ := pollTimeoutMs_eq hms
    unfold reports askedTicks asked Exact
    simp only [hms]
    rw [← hvalue]
    by_cases hfar : 2 ^ 63 ≤ timeoutMs.toNat
    · constructor
      · intro _
        exact Or.inl hfar
      · intro _ elapsed hover
        rw [pollOver_far hfar] at hover
        cases hover
    · rw [pollOver_iff start (Nat.lt_of_not_le hfar)]
      · exact (or_iff_right hfar).symm
      · dsimp only [TIMER_FREQUENCY]
        omega
      · dsimp only [TIMER_FREQUENCY]
        omega
  | epollWait timeoutMs => exact millisecond_iff start haccepted

/-- A sleep of fifteen milliseconds is over after one tick of ten. -/
theorem nanosleep_reports_early :
    ¬(∀ elapsed, (nanosleep 0 15000000).reports 0 elapsed = true →
      (nanosleep 0 15000000).askedTicks ≤ elapsed) := by
  intro h
  exact absurd (h 1 (by decide)) (by decide)

theorem reports_not_early_iff_poll :
    (poll 15).Exact ∧ ∀ elapsed, (poll 15).reports 0 elapsed = true → 2 ≤ elapsed := by
  have hexact : (poll 15).Exact := show (15 : Word).toNat * TIMER_FREQUENCY + 999 < 2 ^ 64 by decide
  have haccepted : (poll 15).Accepted := show 0 < (15 : Word).toInt by decide
  exact ⟨hexact, (reports_not_early_iff (poll 15) 0 haccepted (by decide)).2 hexact⟩

end TimedCall

end NPKernel
