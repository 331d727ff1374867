import NPKernel.PrefixRuns

/-!
# Key events of a boot keyboard

A report of a boot keyboard lists the keys that are down.  The driver compares
it with the last report that was not a rollover, and emits a release for every
slot whose key is gone and a press for every slot whose key is new.  A key that
stands in two slots is therefore pressed or released twice when it comes or
goes.
-/

namespace NPKernel.Keyboard

structure KeyEvent where
  usage : BitVec 8
  pressed : Bool
  modifiers : BitVec 8
deriving DecidableEq

structure KeyboardState where
  initialized : Bool
  modifiers : BitVec 8
  keys : List (BitVec 8)

def modifierUsage (bit : ℕ) : BitVec 8 :=
  0xe0 + BitVec.ofNat 8 bit

def modifierEvents (old new : BitVec 8) : List KeyEvent :=
  (List.range 8).flatMap fun bit =>
    if old.getLsbD bit = new.getLsbD bit then []
    else [⟨modifierUsage bit, new.getLsbD bit, new⟩]

def keyEvents (old new : List (BitVec 8)) (modifiers : BitVec 8) : List KeyEvent :=
  (old.filter fun usage => usage != 0 && !new.contains usage).map (⟨·, false, modifiers⟩) ++
    (new.filter fun usage => usage != 0 && !old.contains usage).map (⟨·, true, modifiers⟩)

/-- `usb_generic_keyboard_process_report`, with the events it emits. -/
def processReport (state : KeyboardState) (report : List (BitVec 8)) :
    Bool × List KeyEvent × KeyboardState :=
  if report.length ≠ 8 then (false, [], state)
  else
    let old := if state.initialized then state.modifiers else 0
    let new := report.headD 0
    let next := { state with modifiers := new, initialized := true }
    let keys := report.drop 2
    if keys.contains 1 then (true, modifierEvents old new, next)
    else
      let previous := if state.initialized then state.keys else List.replicate 6 0
      (true, modifierEvents old new ++ keyEvents previous keys new, { next with keys := keys })

abbrev Report := Vector (BitVec 8) 8

def Report.keys (report : Report) : List (BitVec 8) := report.toList.drop 2

def Report.modifiers (report : Report) : BitVec 8 := report.toList.headD 0

def Report.rollover (report : Report) : Bool := report.keys.contains 1

def receive (done : List KeyEvent × KeyboardState) (report : Report) :
    List KeyEvent × KeyboardState :=
  let processed := processReport done.2 report.toList
  (done.1 ++ processed.2.1, processed.2.2)

/-- The events of a keyboard and its state, which the probe has cleared. -/
def run (reports : List Report) : List KeyEvent × KeyboardState :=
  reports.foldl receive ([], ⟨false, 0, List.replicate 6 0⟩)

/-! ## The events of one usage -/

def presses (usage : BitVec 8) (events : List KeyEvent) : List Bool :=
  (events.filter (·.usage = usage)).map KeyEvent.pressed

def held (usage : BitVec 8) (events : List KeyEvent) : Bool :=
  (presses usage events).getLastD false

def Alternates : Bool → List Bool → Prop
  | _, [] => True
  | expected, pressed :: rest => pressed = expected ∧ Alternates (!expected) rest

/-- Usages below `0xe8` are the keys below `0xe0` and the modifiers. -/
structure KeysAlternate (reports : List Report) : Prop where
  alternate : ∀ usage < 0xe8, Alternates true (presses usage (run reports).1)
  keys : ∀ front report, front ++ [report] <+: reports → report.rollover = false →
    ∀ usage, usage < 0xe0 ∨ 0xe8 ≤ usage →
      (held usage (run (front ++ [report])).1 = true ↔ usage ≠ 0#8 ∧ usage ∈ report.keys)
  modifiers : ∀ front report, front ++ [report] <+: reports → ∀ bit < 8,
    held (modifierUsage bit) (run (front ++ [report])).1 = report.modifiers.getLsbD bit

/-- The keys of the last report that is not a rollover. -/
def lastKeys (reports : List Report) : List (BitVec 8) :=
  ((reports.filter (!·.rollover)).getLast?.map Report.keys).getD (List.replicate 6 0)

/-- No slot holds a modifier, and a key stands in one slot only when it comes and
when it goes. -/
def SlotsDistinct (reports : List Report) : Prop :=
  ∀ front report, front ++ [report] <+: reports → report.rollover = false →
    (∀ bit < 8, modifierUsage bit ∉ report.keys) ∧
    ∀ usage < 0xe0, usage ≠ 0#8 →
      (usage ∉ lastKeys front → report.keys.count usage ≤ 1) ∧
      (usage ∉ report.keys → (lastKeys front).count usage ≤ 1)

open PrefixRuns

variable {usage : BitVec 8} {reports : List Report} {report : Report}

theorem Alternates.append_iff (expected : Bool) (first second : List Bool) :
    Alternates expected (first ++ second) ↔
      Alternates expected first ∧ Alternates (!(first.getLastD !expected)) second := by
  induction first generalizing expected with
  | nil => simp [Alternates]
  | cons pressed first ih =>
    simp only [List.cons_append, Alternates, ih, and_assoc, Bool.not_not, List.getLastD_cons]
    constructor
    · rintro ⟨rfl, h⟩
      exact ⟨rfl, h⟩
    · rintro ⟨rfl, h⟩
      exact ⟨rfl, h⟩

theorem alternates_presses_append (events : List KeyEvent) (second : List Bool) :
    Alternates true (presses usage events ++ second) ↔
      Alternates true (presses usage events) ∧ Alternates (!held usage events) second :=
  Alternates.append_iff true _ second

theorem alternates_replicate (n : ℕ) (pressed : Bool) :
    Alternates pressed (List.replicate n pressed) ↔ n ≤ 1 := by
  match n with
  | 0 | 1 => simp [Alternates]
  | n + 2 => simp [List.replicate_succ, Alternates]

theorem getLastD_append_replicate (first : List Bool) {n : ℕ} (hn : n ≠ 0) (pressed other : Bool) :
    (first ++ List.replicate n pressed).getLastD other = pressed := by
  simp [List.getLastD_eq_getLast?, List.getLast?_replicate, hn]

@[simp]
theorem presses_append (usage : BitVec 8) (first second : List KeyEvent) :
    presses usage (first ++ second) = presses usage first ++ presses usage second := by
  simp [presses]

theorem presses_modifierEvents {bit : ℕ} (hbit : bit < 8) (old new : BitVec 8) :
    presses (modifierUsage bit) (modifierEvents old new) =
      if old.getLsbD bit = new.getLsbD bit then [] else [new.getLsbD bit] := by
  have hevent : ∀ other < 8, presses (modifierUsage bit)
      (if old.getLsbD other = new.getLsbD other then []
        else [⟨modifierUsage other, new.getLsbD other, new⟩]) =
      if other = bit then
        (if old.getLsbD bit = new.getLsbD bit then [] else [new.getLsbD bit])
      else [] := by
    intro other hother
    have husage : modifierUsage other = modifierUsage bit ↔ other = bit := by
      interval_cases bit <;> interval_cases other <;> decide
    split <;> split <;> simp_all [presses]
  rw [presses, modifierEvents, List.filter_flatMap, List.map_flatMap]
  refine (List.flatMap_congr fun other hother => hevent other (List.mem_range.mp hother)).trans ?_
  interval_cases bit <;> simp [List.range_succ]

theorem presses_modifierEvents_of_ne (h : ∀ bit < 8, modifierUsage bit ≠ usage)
    (old new : BitVec 8) : presses usage (modifierEvents old new) = [] := by
  rw [presses, List.map_eq_nil_iff, List.filter_eq_nil_iff]
  intro event hevent
  obtain ⟨bit, hbit, hmem⟩ := List.mem_flatMap.mp hevent
  split at hmem
  · cases hmem
  · rw [List.mem_singleton.mp hmem]
    simpa using h bit (List.mem_range.mp hbit)

theorem presses_map (usage : BitVec 8) (usages : List (BitVec 8)) (pressed : Bool)
    (modifiers : BitVec 8) :
    presses usage (usages.map (⟨·, pressed, modifiers⟩)) =
      List.replicate (usages.count usage) pressed := by
  induction usages with
  | nil => rfl
  | cons first usages ih =>
    by_cases h : first = usage
    · simpa [presses, h, List.replicate_succ] using ih
    · simpa [presses, h] using ih

theorem count_filter_eq (p : BitVec 8 → Bool) (usages : List (BitVec 8)) :
    (usages.filter p).count usage = if p usage then usages.count usage else 0 := by
  split
  next h => exact List.count_filter h
  next h => exact List.count_eq_zero_of_not_mem fun hmem => h (List.mem_filter.mp hmem).2

theorem presses_keyEvents (usage : BitVec 8) (old new : List (BitVec 8)) (modifiers : BitVec 8) :
    presses usage (keyEvents old new modifiers) =
      if usage = 0#8 then []
      else if usage ∈ new then (if usage ∈ old then [] else List.replicate (new.count usage) true)
      else List.replicate (old.count usage) false := by
  rw [keyEvents, presses_append, presses_map, presses_map, count_filter_eq, count_filter_eq]
  by_cases hzero : usage = 0#8
  · simp [hzero]
  by_cases hnew : usage ∈ new
  · by_cases hold : usage ∈ old <;> simp [hzero, hnew, hold]
  · simp [hzero, hnew, List.count_eq_zero.mpr hnew]

/-! ## The reports of one keyboard -/

def lastModifiers (reports : List Report) : BitVec 8 :=
  (reports.getLast?.map Report.modifiers).getD 0

theorem lastModifiers_append (reports : List Report) (report : Report) :
    lastModifiers (reports ++ [report]) = report.modifiers := by
  simp [lastModifiers]

theorem lastKeys_append (reports : List Report) (report : Report) :
    lastKeys (reports ++ [report]) =
      if report.rollover then lastKeys reports else report.keys := by
  cases h : report.rollover <;> simp [lastKeys, h]

theorem run_append (reports : List Report) (report : Report) :
    run (reports ++ [report]) = receive (run reports) report := by
  simp [run]

theorem run_state (reports : List Report) :
    (run reports).2 = ⟨!reports.isEmpty, lastModifiers reports, lastKeys reports⟩ := by
  induction reports using List.reverseRecOn with
  | nil => rfl
  | append_singleton reports report ih =>
    rw [run_append, receive, ih, lastModifiers_append, lastKeys_append]
    cases h : report.rollover <;>
      simp_all [processReport, Report.rollover, Report.keys, Report.modifiers]

theorem run_events (reports : List Report) (report : Report) :
    (run (reports ++ [report])).1 = (run reports).1 ++
      (modifierEvents (lastModifiers reports) report.modifiers ++
        if report.rollover then []
        else keyEvents (lastKeys reports) report.keys report.modifiers) := by
  have hstate : (if (!reports.isEmpty) = true then lastModifiers reports else 0) =
        lastModifiers reports ∧
      (if (!reports.isEmpty) = true then lastKeys reports else List.replicate 6 0) =
        lastKeys reports := by
    cases reports with
    | nil | cons => exact ⟨rfl, rfl⟩
  rw [run_append, receive, run_state, processReport, hstate.1, hstate.2]
  cases h : report.rollover <;> simp_all [Report.rollover, Report.keys, Report.modifiers]

/-- What is known of a key that is no modifier does not depend on the slots. -/
theorem held_key (h : ∀ bit < 8, modifierUsage bit ≠ usage) (reports : List Report) :
    held usage (run reports).1 = true ↔ usage ≠ 0#8 ∧ usage ∈ lastKeys reports := by
  induction reports using List.reverseRecOn with
  | nil => simp [run, held, presses, lastKeys]
  | append_singleton reports report ih =>
    rw [run_events, lastKeys_append, held, presses_append, presses_append,
      presses_modifierEvents_of_ne h, List.nil_append]
    cases report.rollover with
    | true => simpa [presses, held] using ih
    | false =>
      rw [if_neg (by decide), if_neg (by decide), presses_keyEvents]
      rw [held] at ih
      by_cases hzero : usage = 0#8
      · simpa [hzero] using ih
      by_cases hnew : usage ∈ report.keys
      · by_cases hold : usage ∈ lastKeys reports
        · simpa [hzero, hnew, hold] using ih
        · rw [if_neg hzero, if_pos hnew, if_neg hold,
            getLastD_append_replicate _ (List.count_pos_iff.mpr hnew).ne']
          simp [hzero, hnew]
      · rw [if_neg hzero, if_neg hnew]
        by_cases hold : usage ∈ lastKeys reports
        · rw [getLastD_append_replicate _ (List.count_pos_iff.mpr hold).ne']
          simp [hnew]
        · simpa [List.count_eq_zero.mpr hold, hnew, hold] using ih

theorem alternates_key (h : ∀ bit < 8, modifierUsage bit ≠ usage) (reports : List Report) :
    Alternates true (presses usage (run reports).1) ↔
      ∀ front report, front ++ [report] <+: reports → report.rollover = false → usage ≠ 0#8 →
        (usage ∉ lastKeys front → report.keys.count usage ≤ 1) ∧
        (usage ∉ report.keys → (lastKeys front).count usage ≤ 1) := by
  induction reports using List.reverseRecOn with
  | nil => simp [run, presses, Alternates]
  | append_singleton reports report ih =>
    have hheld := held_key h reports
    rw [forall_prefix_append, run_events, presses_append, presses_append,
      presses_modifierEvents_of_ne h, List.nil_append, alternates_presses_append, ih]
    refine and_congr_right fun _ => ?_
    cases report.rollover with
    | true => simp [presses, Alternates]
    | false =>
      rw [if_neg (by decide), presses_keyEvents]
      by_cases hzero : usage = 0#8
      · simp [hzero, Alternates]
      by_cases hnew : usage ∈ report.keys
      · by_cases hold : usage ∈ lastKeys reports
        · simp [hzero, hnew, hold, Alternates]
        · have hup : held usage (run reports).1 = false := by
            simpa [hold] using hheld
          simp [hzero, hnew, hold, hup, alternates_replicate]
      · by_cases hold : usage ∈ lastKeys reports
        · simp [hzero, hnew, hold, hheld.mpr ⟨hzero, hold⟩, alternates_replicate]
        · simp [hzero, hnew, hold, List.count_eq_zero.mpr hold, List.count_eq_zero.mpr hnew,
            Alternates]

/-- No slot of a report that is not a rollover holds a modifier. -/
def KeysOnly (reports : List Report) : Prop :=
  ∀ front report, front ++ [report] <+: reports → report.rollover = false →
    ∀ bit < 8, modifierUsage bit ∉ report.keys

theorem KeysOnly.modifier (h : KeysOnly reports) {bit : ℕ} (hbit : bit < 8) :
    modifierUsage bit ∉ lastKeys reports ∧
      held (modifierUsage bit) (run reports).1 = (lastModifiers reports).getLsbD bit ∧
      Alternates true (presses (modifierUsage bit) (run reports).1) := by
  have hzero : modifierUsage bit ≠ 0#8 := by
    interval_cases bit <;> decide
  induction reports using List.reverseRecOn with
  | nil => simp [run, held, presses, lastKeys, lastModifiers, Alternates, hzero]
  | append_singleton reports report ih =>
    obtain ⟨hkeys, hheld, halternates⟩ := ih fun front report' hfront =>
      h front report' (hfront.trans (List.prefix_append _ _))
    have hkeyEvents : presses (modifierUsage bit) (if report.rollover then []
        else keyEvents (lastKeys reports) report.keys report.modifiers) = [] := by
      cases hrollover : report.rollover with
      | true => rfl
      | false =>
        have hnew := h reports report List.prefix_rfl hrollover bit hbit
        simp [presses_keyEvents, hzero, hnew, List.count_eq_zero.mpr hkeys]
    refine ⟨?_, ?_⟩
    · rw [lastKeys_append]
      split
      · exact hkeys
      next hrollover => exact h reports report List.prefix_rfl (by simpa using hrollover) bit hbit
    · rw [run_events, held, presses_append, presses_append, hkeyEvents, List.append_nil,
        presses_modifierEvents hbit, lastModifiers_append, alternates_presses_append, hheld]
      split
      next hsame =>
        rw [List.append_nil]
        exact ⟨hheld.trans hsame, halternates, trivial⟩
      next hchanged =>
        have hflipped := Bool.eq_not_of_ne (Ne.symm hchanged)
        exact ⟨by simp, halternates, hflipped, trivial⟩

/-- A modifier in a slot is pressed a second time, or is not in the modifier byte. -/
theorem KeysAlternate.keysOnly (h : KeysAlternate reports) : KeysOnly reports := by
  induction reports using List.reverseRecOn with
  | nil =>
    intro front report hfront
    simp at hfront
  | append_singleton reports report ih =>
    have hbefore : KeysAlternate reports := by
      refine ⟨?_, ?_, ?_⟩
      · intro usage husage
        have halternates := h.alternate usage husage
        rw [run_events, presses_append, alternates_presses_append] at halternates
        exact halternates.1
      · exact fun front report hfront => h.keys front report (hfront.trans (List.prefix_append _ _))
      · exact fun front report hfront =>
          h.modifiers front report (hfront.trans (List.prefix_append _ _))
    refine forall_prefix_append.mpr ⟨ih hbefore, ?_⟩
    intro hrollover bit hbit hnew
    obtain ⟨hkeys, hheld, -⟩ := (ih hbefore).modifier hbit
    have husage : modifierUsage bit < 0xe8 ∧ modifierUsage bit ≠ 0#8 := by
      interval_cases bit <;> decide
    have hcount := (List.count_pos_iff.mpr hnew).ne'
    have halternates := h.alternate _ husage.1
    have hmodifier := h.modifiers reports report List.prefix_rfl bit hbit
    rw [run_events, hrollover, if_neg (by decide), held] at hmodifier
    rw [run_events, hrollover, if_neg (by decide)] at halternates
    simp only [presses_append, presses_modifierEvents hbit, presses_keyEvents, husage.2, hnew,
      hkeys, if_true, if_false] at hmodifier halternates
    rw [← List.append_assoc, getLastD_append_replicate _ hcount] at hmodifier
    rw [alternates_presses_append, Alternates.append_iff, hheld, ← hmodifier] at halternates
    obtain ⟨n, hn⟩ := Nat.exists_eq_succ_of_ne_zero hcount
    rw [hn, List.replicate_succ] at halternates
    cases hbit' : (lastModifiers reports).getLsbD bit <;> simp [hbit', Alternates] at halternates

/-- For every sequence of reports, the events alternate and tell the keys that are down
exactly if no slot holds a modifier and no key comes or goes in two slots. -/
theorem keys_alternate_iff (reports : List Report) :
    KeysAlternate reports ↔ SlotsDistinct reports := by
  have hkey : ∀ usage : BitVec 8, usage < 0xe0 ∨ 0xe8 ≤ usage →
      ∀ bit < 8, modifierUsage bit ≠ usage := by
    intro usage husage bit hbit
    interval_cases bit <;> simp only [modifierUsage] <;> bv_omega
  constructor
  · intro h front report hfront hrollover
    refine ⟨h.keysOnly front report hfront hrollover, ?_⟩
    intro usage husage hzero
    have halternates := h.alternate usage (by bv_omega)
    exact (alternates_key (hkey usage (.inl husage)) reports).mp halternates front report hfront
      hrollover hzero
  · intro h
    have honly : KeysOnly reports := fun front report hfront hrollover =>
      (h front report hfront hrollover).1
    refine ⟨?_, ?_, ?_⟩
    · intro usage husage
      by_cases hbelow : usage < 0xe0
      · refine (alternates_key (hkey usage (.inl hbelow)) reports).mpr ?_
        exact fun front report hfront hrollover =>
          (h front report hfront hrollover).2 usage hbelow
      · obtain ⟨bit, hbit, rfl⟩ : ∃ bit < 8, usage = modifierUsage bit := by
          refine ⟨usage.toNat - 0xe0, ?_, ?_⟩
          · bv_omega
          · unfold modifierUsage
            bv_omega
        exact (honly.modifier hbit).2.2
    · intro front report hfront hrollover usage husage
      rw [held_key (hkey usage husage), lastKeys_append, hrollover, if_neg (by decide)]
    · intro front report hfront bit hbit
      have hkept : KeysOnly (front ++ [report]) := fun front' report' hfront' =>
        honly front' report' (hfront'.trans hfront)
      rw [(hkept.modifier hbit).2.1, lastModifiers_append]

/-- One key in two slots is pressed twice. -/
theorem key_pressed_twice : ¬KeysAlternate [#v[0, 0, 4, 4, 0, 0, 0, 0]] := by
  intro h
  have halternates := h.alternate 4 (by decide)
  have hpresses : presses 4 (run [#v[0, 0, 4, 4, 0, 0, 0, 0]]).1 = [true, true] := by
    decide
  rw [hpresses] at halternates
  cases halternates.2.1

end NPKernel.Keyboard
