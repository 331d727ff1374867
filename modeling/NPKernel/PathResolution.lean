import NPKernel.DirectoryListings

/-!
# Canonical paths

`canonicalize_path` of `src/fs/vfs.c` keeps the components of a path in its output buffer,
and finds the last one by going back to the last slash.  The reference keeps them on a
stack.
-/

namespace NPKernel

namespace Paths

open Listings (Name slash VFS_NAME_CAPACITY)
open BitwiseCrc (Byte)
open GuardedRuns

def dot : Byte := 0x2e

def dropComponent (output : Name) : Name :=
  (output.reverse.dropWhile (· ≠ slash)).tail.reverse

def addComponent (capacity : ℕ) (output component : Name) : Option Name :=
  if component = [dot] then some output
  else if component = [dot, dot] then some (dropComponent output)
  else if capacity ≤ output.length + 1 + component.length then none
  else some (output ++ slash :: component)

theorem length_afterComponent {input : Name} (h : input.dropWhile (· = slash) ≠ []) :
    ((input.dropWhile (· = slash)).dropWhile (· ≠ slash)).length < input.length := by
  have hhead := List.head_dropWhile_not (· = slash) h
  have hle := (List.dropWhile_sublist (· = slash) : (input.dropWhile _).Sublist input).length_le
  generalize input.dropWhile (· = slash) = rest at h hhead hle
  cases rest with
  | nil => exact absurd rfl h
  | cons byte rest =>
    have hrest := (List.dropWhile_sublist (· ≠ slash) : (rest.dropWhile _).Sublist rest).length_le
    rw [List.head_cons, decide_eq_false_iff_not] at hhead
    rw [List.dropWhile_cons_of_pos (by simpa using hhead)]
    rw [List.length_cons] at hle
    omega

def canonicalizeLoop (capacity : ℕ) (input output : Name) : Option Name :=
  let rest := input.dropWhile (· = slash)
  if rest = [] then some output
  else
    (addComponent capacity output (rest.takeWhile (· ≠ slash))).bind
      (canonicalizeLoop capacity (rest.dropWhile (· ≠ slash)))
termination_by input.length
decreasing_by exact length_afterComponent (by assumption)

def canonicalizePath (path : Name) (capacity : ℕ) : Option Name :=
  if capacity < 2 ∨ path.head? ≠ some slash then none
  else
    (canonicalizeLoop capacity path.tail []).map fun output =>
      if output = [] then [slash] else output

def vfsResolvePath (cwd path : Name) (capacity : ℕ) : Option Name :=
  if capacity < 2 ∨ cwd.head? ≠ some slash ∨ path = [] then none
  else if path.head? = some slash then
    if VFS_NAME_CAPACITY ≤ path.length then none else canonicalizePath path capacity
  else
    let separator := if cwd.getLast? = some slash then [] else [slash]
    if VFS_NAME_CAPACITY ≤ cwd.length + separator.length + path.length then none
    else canonicalizePath (cwd ++ separator ++ path) capacity

/-! ## The reference -/

def stackStep (stack : List Name) (component : Name) : List Name :=
  if component = [] ∨ component = [dot] then stack
  else if component = [dot, dot] then stack.dropLast
  else stack ++ [component]

def componentStack (stack : List Name) (path : Name) : List Name :=
  (path.splitOn slash).foldl stackStep stack

def joined (stack : List Name) : Name := stack.flatMap (slash :: ·)

def referencePath (path : Name) : Name :=
  let stack := componentStack [] path
  if stack = [] then [slash] else joined stack

structure Component (name : Name) : Prop where
  nonempty : name ≠ []
  noSlash : slash ∉ name
  notDot : name ≠ [dot]
  notDots : name ≠ [dot, dot]

/-- A path from the root without empty components and dots, and without a slash at its end
unless it is the root. -/
structure Canonical (path : Name) : Prop where
  root : path.head? = some slash
  components : path = [slash] ∨ ∀ component ∈ (path.splitOn slash).tail,
    component ≠ [] ∧ component ≠ [dot] ∧ component ≠ [dot, dot]
  last : path.getLast? = some slash → path = [slash]

/-! ## The stack of a path -/

section components

variable {stack : List Name} {input rest component : Name}

theorem componentStack_slash :
    componentStack stack (slash :: input) = componentStack stack input := by
  have hsplit : (slash :: input).splitOn slash = [] :: input.splitOn slash :=
    @List.splitOnP_append_cons_of_forall_mem _ (· == slash) [] (by simp) slash (by simp) input
  rw [componentStack, hsplit, List.foldl_cons]
  rfl

theorem componentStack_dropWhile :
    componentStack stack (input.dropWhile (· = slash)) = componentStack stack input := by
  induction input with
  | nil => rfl
  | cons byte input ih =>
    by_cases hbyte : byte = slash
    · rw [hbyte, List.dropWhile_cons_of_pos (by simp), ih, componentStack_slash]
    · rw [List.dropWhile_cons_of_neg (by simpa using hbyte)]

theorem componentStack_append (hcomponent : slash ∉ component)
    (hrest : rest = [] ∨ ∃ more, rest = slash :: more) :
    componentStack stack (component ++ rest) = componentStack (stackStep stack component) rest := by
  have hnone : ∀ byte ∈ component, (byte == slash) = false := by
    intro byte hbyte
    rw [beq_eq_false_iff_ne]
    rintro rfl
    exact hcomponent hbyte
  rcases hrest with rfl | ⟨more, rfl⟩
  · have hsplit : component.splitOn slash = [component] := List.splitOnP_eq_singleton hnone
    rw [List.append_nil, componentStack, hsplit]
    rfl
  · have hsplit : (component ++ slash :: more).splitOn slash = component :: more.splitOn slash :=
      List.splitOnP_append_cons_of_forall_mem hnone slash (by simp) more
    rw [componentStack_slash, componentStack, hsplit, List.foldl_cons, componentStack]

theorem dropWhile_ne_slash (rest : Name) :
    rest.dropWhile (· ≠ slash) = [] ∨ ∃ more, rest.dropWhile (· ≠ slash) = slash :: more := by
  cases hdrop : rest.dropWhile (· ≠ slash) with
  | nil => exact Or.inl rfl
  | cons byte more =>
    have hhead := List.head_dropWhile_not (· ≠ slash) (l := rest) (by rw [hdrop]; simp)
    simp only [hdrop, List.head_cons, decide_eq_false_iff_not, not_not] at hhead
    exact Or.inr ⟨more, by rw [hhead]⟩

/-- What the loop does to the output is what the reference does to the stack. -/
theorem addComponent_joined {capacity : ℕ} (hstack : ∀ name ∈ stack, Component name)
    (hnonempty : component ≠ []) (hroom : (joined stack).length + 1 + component.length < capacity) :
    addComponent capacity (joined stack) component = some (joined (stackStep stack component)) := by
  unfold addComponent stackStep
  by_cases hdot : component = [dot]
  · rw [if_pos hdot, if_pos (Or.inr hdot)]
  rw [if_neg hdot, if_neg (not_or.2 ⟨hnonempty, hdot⟩)]
  split
  · rcases List.eq_nil_or_concat stack with rfl | ⟨before, last, rfl⟩
    · rfl
    · have hlast : slash ∉ last := (hstack last (by simp)).noSlash
      have hdrop : (last.reverse ++ slash :: (joined before).reverse).dropWhile (· ≠ slash) =
          slash :: (joined before).reverse := by
        rw [List.dropWhile_append_of_pos]
        · rw [List.dropWhile_cons_of_neg (by simp)]
        · intro byte hbyte
          simp only [ne_eq, decide_eq_true_eq]
          rintro rfl
          exact hlast (List.mem_reverse.1 hbyte)
      rw [List.concat_eq_append, List.dropLast_concat, dropComponent]
      simp only [joined, List.flatMap_append, List.flatMap_cons, List.flatMap_nil,
        List.append_nil, List.reverse_append, List.reverse_cons, List.append_assoc,
        List.singleton_append]
      rw [joined] at hdrop
      rw [hdrop, List.tail_cons, List.reverse_reverse]
  · rw [if_neg (by omega), joined, joined, List.flatMap_append, List.flatMap_singleton]

theorem length_joined_stackStep :
    (joined (stackStep stack component)).length ≤ (joined stack).length + 1 + component.length := by
  unfold stackStep
  split
  · omega
  split
  · rcases List.eq_nil_or_concat stack with rfl | ⟨before, last, rfl⟩
    · exact Nat.zero_le _
    · rw [List.concat_eq_append, List.dropLast_concat, joined, joined, List.flatMap_append,
        List.length_append]
      omega
  · simp [joined, Nat.add_assoc, Nat.add_comm 1]

theorem stackStep_component (hstack : ∀ name ∈ stack, Component name)
    (hcomponent : slash ∉ component) : ∀ name ∈ stackStep stack component, Component name := by
  unfold stackStep
  split
  · exact hstack
  next hskip =>
  split
  · exact fun name hname => hstack name (List.mem_of_mem_dropLast hname)
  next hdots =>
  intro name hname
  rcases List.mem_append.1 hname with hold | hnew
  · exact hstack name hold
  · rw [List.mem_singleton.1 hnew]
    exact ⟨fun h => hskip (Or.inl h), hcomponent, fun h => hskip (Or.inr h), hdots⟩

end components

/-- The loop computes the stack of the reference, if there is room for the whole input. -/
theorem canonicalizeLoop_eq {capacity : ℕ} (input : Name) {stack : List Name}
    (hstack : ∀ name ∈ stack, Component name) (hroom : input.dropWhile (· = slash) ≠ [] →
      (joined stack).length + 1 + (input.dropWhile (· = slash)).length < capacity) :
    canonicalizeLoop capacity input (joined stack) = some (joined (componentStack stack input)) ∧
      ∀ name ∈ componentStack stack input, Component name := by
  induction hlength : input.length using Nat.strong_induction_on generalizing input stack with
  | _ length ih =>
    rw [canonicalizeLoop, ← componentStack_dropWhile]
    split
    next hend =>
      rw [hend]
      exact ⟨rfl, hstack⟩
    next hrest =>
    have hshorter := length_afterComponent hrest
    have hhead := List.head_dropWhile_not (· = slash) hrest
    specialize hroom hrest
    generalize input.dropWhile (· = slash) = rest at hrest hshorter hroom hhead
    have hsplit : rest.takeWhile (· ≠ slash) ++ rest.dropWhile (· ≠ slash) = rest :=
      List.takeWhile_append_dropWhile
    have hcomponent : slash ∉ rest.takeWhile (· ≠ slash) := by
      intro hmem
      simpa using List.mem_takeWhile_imp hmem
    have hnonempty : rest.takeWhile (· ≠ slash) ≠ [] := by
      cases rest with
      | nil => exact absurd rfl hrest
      | cons byte rest =>
        rw [List.head_cons, decide_eq_false_iff_not] at hhead
        rw [List.takeWhile_cons_of_pos (by simpa using hhead)]
        simp
    have hend := dropWhile_ne_slash rest
    generalize rest.takeWhile (· ≠ slash) = component at hsplit hcomponent hnonempty
    generalize rest.dropWhile (· ≠ slash) = tail at hsplit hshorter hend
    have hsum : component.length + tail.length = rest.length := by
      rw [← hsplit, List.length_append]
    rw [addComponent_joined hstack hnonempty (by omega), Option.bind_some, ← hsplit,
      componentStack_append hcomponent hend]
    apply ih tail.length (by omega) tail (stackStep_component hstack hcomponent) _ rfl
    intro hmore
    rcases hend with rfl | ⟨more, rfl⟩
    · exact absurd rfl hmore
    · have hgrows := @length_joined_stackStep stack component
      have hle := (List.dropWhile_sublist (· = slash) : (more.dropWhile _).Sublist more).length_le
      rw [List.dropWhile_cons_of_pos (by simp)]
      rw [List.length_cons] at hsum
      omega

theorem canonicalizeLoop_length {capacity : ℕ} (input : Name) {output result : Name}
    (houtput : output.length < capacity)
    (h : canonicalizeLoop capacity input output = some result) : result.length < capacity := by
  induction hlength : input.length using Nat.strong_induction_on generalizing input output with
  | _ length ih =>
    rw [canonicalizeLoop] at h
    split at h
    · exact Option.some.inj h ▸ houtput
    next hrest =>
    obtain ⟨next, hnext, hloop⟩ := Option.bind_eq_some_iff.1 h
    refine ih _ (hlength ▸ length_afterComponent hrest) _ ?_ hloop rfl
    unfold addComponent at hnext
    split_ifs at hnext with hdot hdots hroom
    · exact Option.some.inj hnext ▸ houtput
    · rw [← Option.some.inj hnext, dropComponent, List.length_reverse, List.length_tail]
      have hle := (List.dropWhile_sublist (· ≠ slash) :
        (output.reverse.dropWhile _).Sublist output.reverse).length_le
      rw [List.length_reverse] at hle
      omega
    · rw [← Option.some.inj hnext, List.length_append, List.length_cons]
      omega

/-! ## Canonical paths -/

section canonical

variable {stack : List Name} (hstack : ∀ name ∈ stack, Component name)

include hstack

theorem splitOn_append_joined {component : Name} (hcomponent : slash ∉ component) :
    (component ++ joined stack).splitOn slash = component :: stack := by
  have hnone : ∀ {name : Name}, slash ∉ name → ∀ byte ∈ name, (byte == slash) = false := by
    intro name hname byte hbyte
    rw [beq_eq_false_iff_ne]
    rintro rfl
    exact hname hbyte
  induction stack generalizing component with
  | nil =>
    exact (congrArg _ (List.append_nil _)).trans
      (List.splitOnP_eq_singleton (hnone hcomponent))
  | cons next stack ih =>
    have hnext := ih (fun name hname => hstack name (List.mem_cons_of_mem _ hname))
      (hstack next List.mem_cons_self).noSlash
    exact (List.splitOnP_append_cons_of_forall_mem (hnone hcomponent) slash (by simp) _).trans
      (congrArg _ hnext)

theorem componentStack_joined : componentStack [] (joined stack) = stack := by
  have hkeep : ∀ before, stack.foldl stackStep before = before ++ stack := by
    induction stack with
    | nil => exact fun before => (List.append_nil before).symm
    | cons name stack ih =>
      intro before
      have hname := hstack name List.mem_cons_self
      have hstep : stackStep before name = before ++ [name] := by
        rw [stackStep, if_neg (not_or.2 ⟨hname.nonempty, hname.notDot⟩), if_neg hname.notDots]
      rw [List.foldl_cons, hstep,
        ih fun other hother => hstack other (List.mem_cons_of_mem _ hother),
        List.append_assoc, List.singleton_append]
  have hsplit := splitOn_append_joined hstack (List.not_mem_nil : slash ∉ ([] : Name))
  rw [List.nil_append] at hsplit
  rw [componentStack, hsplit, List.foldl_cons]
  exact hkeep []

theorem canonical_joined (hnonempty : stack ≠ []) : Canonical (joined stack) := by
  constructor
  · cases stack with
    | nil => exact absurd rfl hnonempty
    | cons name stack => rfl
  · right
    have hsplit := splitOn_append_joined hstack (List.not_mem_nil : slash ∉ ([] : Name))
    rw [List.nil_append] at hsplit
    rw [hsplit]
    intro component hcomponent
    have hname := hstack component hcomponent
    exact ⟨hname.nonempty, hname.notDot, hname.notDots⟩
  · intro hlast
    rcases List.eq_nil_or_concat stack with rfl | ⟨before, last, rfl⟩
    · exact absurd rfl hnonempty
    · have hname := hstack last (by simp)
      rw [List.concat_eq_append, joined, List.flatMap_append, List.flatMap_singleton,
        List.getLast?_append_cons, List.getLast?_cons_of_ne_nil hname.nonempty] at hlast
      exact absurd (List.mem_of_getLast? hlast) hname.noSlash

end canonical

theorem joined_eq_nil {stack : List Name} : joined stack = [] ↔ stack = [] := by
  cases stack with
  | nil | cons => simp [joined]

/-- A path that fits is canonicalised to the reference, which is canonical and stays as it is. -/
theorem canonicalizePath_eq {path : Name} (hroot : path.head? = some slash)
    (hlength : path.length < VFS_NAME_CAPACITY) :
    canonicalizePath path VFS_NAME_CAPACITY = some (referencePath path) ∧
      Canonical (referencePath path) ∧ (referencePath path).length < VFS_NAME_CAPACITY ∧
      referencePath (referencePath path) = referencePath path := by
  obtain ⟨rest, rfl⟩ : ∃ rest, path = slash :: rest := List.head?_eq_some_iff.1 hroot
  have hloop := @canonicalizeLoop_eq VFS_NAME_CAPACITY rest [] (by simp) (by
    intro _
    have hle := (List.dropWhile_sublist (· = slash) : (rest.dropWhile _).Sublist rest).length_le
    rw [List.length_cons] at hlength
    simp only [joined, List.flatMap_nil, List.length_nil]
    omega)
  obtain ⟨hresult, hstack⟩ := hloop
  have hfits := canonicalizeLoop_length rest (by decide) hresult
  have hcanonical : canonicalizePath (slash :: rest) VFS_NAME_CAPACITY =
      some (referencePath (slash :: rest)) := by
    rw [canonicalizePath, if_neg (by simp [VFS_NAME_CAPACITY])]
    change ((canonicalizeLoop _ rest (joined [])).map _) = _
    rw [hresult, referencePath, componentStack_slash]
    simp only [Option.map_some, joined_eq_nil]
  refine ⟨hcanonical, ?_⟩
  unfold referencePath
  simp only [componentStack_slash]
  generalize componentStack [] rest = stack at hstack hfits
  by_cases hempty : stack = []
  · rw [if_pos hempty]
    exact ⟨⟨rfl, Or.inl rfl, fun _ => rfl⟩, by decide, if_pos componentStack_slash⟩
  · rw [if_neg hempty]
    refine ⟨canonical_joined hstack hempty, hfits, ?_⟩
    rw [componentStack_joined hstack, if_neg hempty]

/-! ## Paths of a process -/

theorem canonicalizePath_canonical {path result : Name} (hlength : path.length < VFS_NAME_CAPACITY)
    (h : canonicalizePath path VFS_NAME_CAPACITY = some result) : Canonical result := by
  by_cases hroot : path.head? = some slash
  · obtain ⟨heq, hcanonical, -⟩ := canonicalizePath_eq hroot hlength
    rw [h] at heq
    exact Option.some.inj heq ▸ hcanonical
  · rw [canonicalizePath, if_pos (Or.inr hroot)] at h
    cases h

theorem vfsResolvePath_canonical {cwd path result : Name}
    (h : vfsResolvePath cwd path VFS_NAME_CAPACITY = some result) : Canonical result := by
  unfold vfsResolvePath at h
  dsimp only at h
  generalize (if cwd.getLast? = some slash then [] else [slash]) = separator at h
  split_ifs at h with hargs hroot hlong hlong
  · exact canonicalizePath_canonical (by omega) h
  · apply canonicalizePath_canonical _ h
    rw [List.length_append, List.length_append]
    omega

/-- A relative path is resolved as the path behind the working directory and a slash. -/
theorem vfsResolvePath_relative {cwd path : Name} (hcwd : Canonical cwd) (hpath : path ≠ [])
    (hrelative : path.head? ≠ some slash)
    (hlength : cwd.length + (if cwd = [slash] then 0 else 1) + path.length < VFS_NAME_CAPACITY) :
    vfsResolvePath cwd path VFS_NAME_CAPACITY =
      canonicalizePath (cwd ++ slash :: path) VFS_NAME_CAPACITY := by
  have hcapacity : ¬VFS_NAME_CAPACITY < 2 := by decide
  rw [vfsResolvePath, if_neg (by simp [hcapacity, hcwd.root, hpath]), if_neg hrelative]
  by_cases hslash : cwd = [slash]
  · rw [if_pos hslash] at hlength
    subst hslash
    have hskip : canonicalizeLoop VFS_NAME_CAPACITY (slash :: path) [] =
        canonicalizeLoop VFS_NAME_CAPACITY path [] := by
      rw [canonicalizeLoop, canonicalizeLoop, List.dropWhile_cons_of_pos (by simp)]
    rw [List.getLast?_singleton, if_pos rfl, if_neg (by simpa using hlength)]
    simp only [canonicalizePath, List.append_nil, List.singleton_append, List.tail_cons, hskip,
      List.head?_cons]
  · rw [if_neg hslash] at hlength
    have hlast : cwd.getLast? ≠ some slash := fun hlast => hslash (hcwd.last hlast)
    rw [if_neg hlast]
    dsimp only
    rw [List.length_singleton, if_neg (by omega), List.append_assoc, List.singleton_append]

/-- `sys_chdir`; whether a path is that of a directory is found out by opening it. -/
def sysChdir (isDirectory : Name → Bool) (cwd path : Name) : Option Name :=
  if VFS_NAME_CAPACITY ≤ path.length then none
  else
    (vfsResolvePath cwd path VFS_NAME_CAPACITY).filter fun resolved =>
      isDirectory resolved && decide (resolved.length < VFS_NAME_CAPACITY)

inductive CwdEvent where
  | create (slot : Fin 128)
  | fork (parent child : Fin 128)
  | chdir (slot : Fin 128) (isDirectory : Name → Bool) (path : Name)
  | exit (slot : Fin 128)

abbrev Cwds := Fin 128 → Option Name

/-- The kernel's own process has the root. -/
def initialCwds : Cwds := fun slot => if slot = 0 then some [slash] else none

def cwdStep (cwds : Cwds) : CwdEvent → Option Cwds
  | .create slot => some (Function.update cwds slot (some [slash]))
  | .fork parent child => some (Function.update cwds child (cwds parent))
  | .chdir slot isDirectory path =>
    match (cwds slot).bind fun cwd => sysChdir isDirectory cwd path with
    | none => some cwds
    | some cwd => some (Function.update cwds slot (some cwd))
  | .exit slot => some (Function.update cwds slot none)

theorem cwdStep_canonical {cwds next : Cwds} {event : CwdEvent}
    (h : ∀ slot cwd, cwds slot = some cwd → Canonical cwd)
    (hstep : cwdStep cwds event = some next) :
    ∀ slot cwd, next slot = some cwd → Canonical cwd := by
  have hupdate : ∀ {slot : Fin 128} {value : Option Name},
      (∀ cwd, value = some cwd → Canonical cwd) →
      ∀ other cwd, Function.update cwds slot value other = some cwd → Canonical cwd := by
    intro slot value hvalue other cwd hcwd
    by_cases hother : other = slot
    · rw [hother, Function.update_self] at hcwd
      exact hvalue cwd hcwd
    · rw [Function.update_of_ne hother] at hcwd
      exact h other cwd hcwd
  cases event with
  | create slot =>
    cases hstep
    apply hupdate
    intro cwd hcwd
    rw [← Option.some.inj hcwd]
    exact ⟨rfl, Or.inl rfl, fun _ => rfl⟩
  | fork parent child =>
    cases hstep
    exact hupdate (h parent)
  | chdir slot isDirectory path =>
    rw [cwdStep] at hstep
    split at hstep
    · cases hstep
      exact h
    next resolved hresolved =>
      cases hstep
      apply hupdate
      intro cwd hcwd
      cases hcwd
      obtain ⟨old, -, hchdir⟩ := Option.bind_eq_some_iff.1 hresolved
      unfold sysChdir at hchdir
      split at hchdir
      · cases hchdir
      · exact vfsResolvePath_canonical (Option.filter_eq_some_iff.1 hchdir).1
  | exit slot =>
    cases hstep
    apply hupdate
    intro cwd hcwd
    cases hcwd

/-- Absolute paths are canonicalised as by the stack of their components, relative ones
that fit as what they are behind the working directory, and working directories are
canonical. -/
theorem paths_canonical :
    (∀ path : Name, path.head? = some slash → path.length < VFS_NAME_CAPACITY →
      canonicalizePath path VFS_NAME_CAPACITY = some (referencePath path) ∧
        Canonical (referencePath path) ∧
        canonicalizePath (referencePath path) VFS_NAME_CAPACITY = some (referencePath path)) ∧
    (∀ cwd path : Name, Canonical cwd → path ≠ [] → path.head? ≠ some slash →
      cwd.length + (if cwd = [slash] then 0 else 1) + path.length < VFS_NAME_CAPACITY →
      vfsResolvePath cwd path VFS_NAME_CAPACITY =
        canonicalizePath (cwd ++ slash :: path) VFS_NAME_CAPACITY) ∧
    ∀ (events : List CwdEvent) (cwds : Cwds), run cwdStep initialCwds events = some cwds →
      ∀ slot cwd, cwds slot = some cwd → Canonical cwd := by
  refine ⟨?_, fun cwd path => vfsResolvePath_relative, ?_⟩
  · intro path hroot hlength
    obtain ⟨heq, hcanonical, hfits, hfixed⟩ := canonicalizePath_eq hroot hlength
    obtain ⟨hagain, -⟩ := canonicalizePath_eq hcanonical.root hfits
    rw [hfixed] at hagain
    exact ⟨heq, hcanonical, hagain⟩
  · intro events cwds hrun
    apply invariant_always (fun _ _ _ => cwdStep_canonical) _ hrun
    intro slot cwd hcwd
    unfold initialCwds at hcwd
    split at hcwd
    · rw [← Option.some.inj hcwd]
      exact ⟨rfl, Or.inl rfl, fun _ => rfl⟩
    · cases hcwd

/-- The empty path is not resolved to the working directory. -/
theorem empty_path_not_resolved :
    ¬∀ cwd path : Name, Canonical cwd → path.head? ≠ some slash →
      vfsResolvePath cwd path VFS_NAME_CAPACITY =
        canonicalizePath (cwd ++ slash :: path) VFS_NAME_CAPACITY := by
  intro h
  have hroot := h [slash] [] ⟨rfl, Or.inl rfl, fun _ => rfl⟩ (by decide)
  have hreference := (@canonicalizePath_eq [slash, slash] rfl (by decide)).1
  rw [List.singleton_append, hreference, vfsResolvePath, if_pos (by simp)] at hroot
  cases hroot

end Paths

end NPKernel
