import Mathlib

/-!
# Radix trees of tables

An entry of a table is absent, a leaf, or a labelled table below.  A path lists
the indices from the top.  Accounts of what a tree holds are sums of weights over
all its nodes.
-/

namespace RadixTables

inductive Tree (ι β α : Type) where
  | absent
  | leaf (entry : α)
  | table (label : β) (entries : ι → Tree ι β α)

variable {ι β α σ : Type}

namespace Tree

def leafAt : Tree ι β α → List ι → Option α
  | .leaf entry, [] => some entry
  | .table _ entries, i :: path => leafAt (entries i) path
  | _, _ => none

def labelAt : Tree ι β α → List ι → Option β
  | .table label _, [] => some label
  | .table _ entries, i :: path => labelAt (entries i) path
  | _, _ => none

def isTable : Tree ι β α → Bool
  | .table _ _ => true
  | _ => false

def isAbsent : Tree ι β α → Bool
  | .absent => true
  | _ => false

variable {tree : Tree ι β α} {path : List ι} {label : β} {entries : ι → Tree ι β α} {i : ι}
  {s s' : σ} {alloc : σ → Option β × σ} {count : ℕ}

theorem eq_absent (h : tree.isAbsent = true) : tree = .absent := by
  cases tree with
  | absent => rfl
  | leaf | table => simp [isAbsent] at h

/-- Whether the tables on a path are there and its end is not a table. -/
def hasSlot : Tree ι β α → List ι → Bool
  | .table _ entries, [i] => !(entries i).isTable
  | .table _ entries, i :: j :: path => hasSlot (entries i) (j :: path)
  | _, _ => false

@[simp]
theorem leafAt_absent (path : List ι) : leafAt (.absent : Tree ι β α) path = none := by
  cases path <;> rfl

@[simp]
theorem labelAt_absent (path : List ι) : labelAt (.absent : Tree ι β α) path = none := by
  cases path <;> rfl

@[simp]
theorem leafAt_leaf_nil (entry : α) : leafAt (.leaf entry : Tree ι β α) [] = some entry := rfl

@[simp]
theorem leafAt_leaf_cons (entry : α) (i : ι) (path : List ι) :
    leafAt (.leaf entry : Tree ι β α) (i :: path) = none := rfl

@[simp]
theorem labelAt_leaf (entry : α) (path : List ι) :
    labelAt (.leaf entry : Tree ι β α) path = none := by
  cases path <;> rfl

@[simp]
theorem leafAt_table_nil (label : β) (entries : ι → Tree ι β α) :
    leafAt (.table label entries) [] = none := rfl

@[simp]
theorem leafAt_table_cons (label : β) (entries : ι → Tree ι β α) (i : ι) (path : List ι) :
    leafAt (.table label entries) (i :: path) = leafAt (entries i) path := rfl

@[simp]
theorem labelAt_table_nil (label : β) (entries : ι → Tree ι β α) :
    labelAt (.table label entries) [] = some label := rfl

@[simp]
theorem labelAt_table_cons (label : β) (entries : ι → Tree ι β α) (i : ι) (path : List ι) :
    labelAt (.table label entries) (i :: path) = labelAt (entries i) path := rfl

theorem hasSlot_of_leafAt {entry : α}
    (h : tree.leafAt path = some entry) (hpath : path ≠ []) : tree.hasSlot path = true := by
  induction path generalizing tree with
  | nil => exact absurd rfl hpath
  | cons i path ih =>
    cases tree with
    | absent | leaf => simp at h
    | table label entries =>
      rw [leafAt_table_cons] at h
      cases path with
      | nil =>
        cases hentry : entries i with
        | absent => simp [hentry] at h
        | leaf entry => simp [hasSlot, hentry, isTable]
        | table label' below => simp [hentry] at h
      | cons j path => exact ih h (List.cons_ne_nil j path)

/-! ## Trees of one depth -/

def HasDepth : ℕ → Tree ι β α → Prop
  | _, .absent => True
  | n, .leaf _ => n = 0
  | 0, .table _ _ => False
  | n + 1, .table _ entries => ∀ i, HasDepth n (entries i)

theorem hasDepth_absent (n : ℕ) : HasDepth n (.absent : Tree ι β α) := by
  cases n <;> trivial

/-! ## Weights of all the nodes -/

section weight

variable [Fintype ι]

def weight (onTable : β → ℕ) (onLeaf : α → ℕ) : Tree ι β α → ℕ
  | .absent => 0
  | .leaf entry => onLeaf entry
  | .table label entries => onTable label + ∑ i, weight onTable onLeaf (entries i)

variable {onTable onTable' : β → ℕ} {onLeaf onLeaf' : α → ℕ}

@[simp]
theorem weight_absent : (.absent : Tree ι β α).weight onTable onLeaf = 0 := rfl

@[simp]
theorem weight_leaf (entry : α) :
    (.leaf entry : Tree ι β α).weight onTable onLeaf = onLeaf entry := rfl

theorem weight_table (label : β) (entries : ι → Tree ι β α) :
    (Tree.table label entries).weight onTable onLeaf =
      onTable label + ∑ i, (entries i).weight onTable onLeaf := rfl

theorem weight_empty (label : β) :
    (Tree.table label fun _ : ι => (.absent : Tree ι β α)).weight onTable onLeaf =
      onTable label := by
  simp [weight_table]

theorem weight_entry_le (label : β) (entries : ι → Tree ι β α) (i : ι) :
    (entries i).weight onTable onLeaf ≤ (Tree.table label entries).weight onTable onLeaf := by
  rw [weight_table]
  have hle := Finset.single_le_sum (f := fun i => (entries i).weight onTable onLeaf)
    (fun i _ => Nat.zero_le _) (Finset.mem_univ i)
  omega

theorem exists_labelAt_iff [DecidableEq β] (tree : Tree ι β α) (label : β) :
    (∃ path, tree.labelAt path = some label) ↔
      0 < tree.weight (fun other => if other = label then 1 else 0) (fun _ => 0) := by
  induction tree with
  | absent | leaf => simp
  | table other entries ih =>
    rw [weight_table]
    constructor
    · intro hpath
      obtain ⟨path, hpath⟩ := hpath
      cases path with
      | nil =>
        rw [if_pos (by simpa using hpath)]
        omega
      | cons i path =>
        have hpos := (ih i).1 ⟨path, hpath⟩
        have hle : (entries i).weight (fun other => if other = label then 1 else 0)
            (fun _ => 0) ≤
            (Tree.table other entries).weight (fun other => if other = label then 1 else 0)
              (fun _ => 0) := weight_entry_le other entries i
        rw [weight_table] at hle
        omega
    · intro hpos
      by_cases heq : other = label
      · exact ⟨[], by simp [heq]⟩
      · rw [if_neg heq, zero_add] at hpos
        obtain ⟨i, -, hi⟩ := Finset.exists_ne_zero_of_sum_ne_zero hpos.ne'
        obtain ⟨path, hpath⟩ := (ih i).2 (Nat.pos_of_ne_zero hi)
        exact ⟨i :: path, hpath⟩

theorem weight_update [DecidableEq ι] (onTable : β → ℕ) (onLeaf : α → ℕ) (label : β)
    (entries : ι → Tree ι β α) (i : ι) (entry : Tree ι β α) :
    (Tree.table label (Function.update entries i entry)).weight onTable onLeaf +
        (entries i).weight onTable onLeaf =
      (Tree.table label entries).weight onTable onLeaf + entry.weight onTable onLeaf := by
  have hsplit := Finset.add_sum_erase Finset.univ
    (fun k => (entries k).weight onTable onLeaf) (Finset.mem_univ i)
  have hsplit' := Finset.add_sum_erase Finset.univ
    (fun k => (Function.update entries i entry k).weight onTable onLeaf) (Finset.mem_univ i)
  have hsame : ∑ k ∈ Finset.univ.erase i,
        (Function.update entries i entry k).weight onTable onLeaf =
      ∑ k ∈ Finset.univ.erase i, (entries k).weight onTable onLeaf := by
    apply Finset.sum_congr rfl
    intro k hk
    rw [Function.update_of_ne (Finset.ne_of_mem_erase hk)]
  simp only [Function.update_self] at hsplit'
  simp only [weight_table]
  omega

end weight

/-! ## Changing one leaf -/

def ofOption : Option α → Tree ι β α
  | none => .absent
  | some entry => .leaf entry

theorem leafAt_ofOption (entry : Option α) : leafAt (ofOption entry : Tree ι β α) [] = entry := by
  cases entry <;> rfl

@[simp]
theorem leafAt_ofOption_cons (entry : Option α) (i : ι) (path : List ι) :
    leafAt (ofOption entry : Tree ι β α) (i :: path) = none := by
  cases entry <;> rfl

@[simp]
theorem labelAt_ofOption (entry : Option α) (path : List ι) :
    labelAt (ofOption entry : Tree ι β α) path = none := by
  cases entry <;> simp [ofOption]

variable [DecidableEq ι]

theorem leafAt_update {entry : Tree ι β α} {other : List ι}
    (h : ∀ rest, other = i :: rest → entry.leafAt rest = (entries i).leafAt rest) :
    (table label (Function.update entries i entry)).leafAt other =
      (table label entries).leafAt other := by
  cases other with
  | nil => rfl
  | cons k rest =>
    by_cases hki : k = i
    · subst hki
      simpa using h rest rfl
    · simp [hki]

theorem labelAt_update {entry : Tree ι β α} {other : List ι}
    (h : ∀ rest, other = i :: rest → entry.labelAt rest = (entries i).labelAt rest) :
    (table label (Function.update entries i entry)).labelAt other =
      (table label entries).labelAt other := by
  cases other with
  | nil => rfl
  | cons k rest =>
    by_cases hki : k = i
    · subst hki
      simpa using h rest rfl
    · simp [hki]

def alter (f : Option α → Option α) : Tree ι β α → List ι → Tree ι β α
  | .table label entries, [i] =>
    match entries i with
    | .table _ _ => .table label entries
    | .absent => .table label (Function.update entries i (ofOption (f none)))
    | .leaf entry => .table label (Function.update entries i (ofOption (f (some entry))))
  | .table label entries, i :: j :: path =>
    .table label (Function.update entries i (alter f (entries i) (j :: path)))
  | tree, _ => tree

theorem leafAt_alter_self (f : Option α → Option α) (h : tree.hasSlot path = true) :
    (alter f tree path).leafAt path = f (tree.leafAt path) := by
  induction path generalizing tree with
  | nil => cases tree <;> simp [hasSlot] at h
  | cons i path ih =>
    cases tree with
    | absent | leaf => simp [hasSlot] at h
    | table label entries =>
      cases path with
      | nil =>
        cases hentry : entries i with
        | absent | leaf => simp [alter, hentry, leafAt_ofOption]
        | table label' below => simp [hasSlot, hentry, isTable] at h
      | cons j path =>
        rw [alter, leafAt_table_cons, Function.update_self, ih h, leafAt_table_cons]

theorem leafAt_alter_of_ne (f : Option α → Option α) {other : List ι} (hne : other ≠ path) :
    (alter f tree path).leafAt other = tree.leafAt other := by
  induction path generalizing tree other with
  | nil => cases tree <;> rfl
  | cons i path ih =>
    cases tree with
    | absent | leaf => rfl
    | table label entries =>
      cases path with
      | nil =>
        cases hentry : entries i with
        | table label' below => simp [alter, hentry]
        | absent | leaf =>
          simp only [alter, hentry]
          refine leafAt_update fun rest hrest => ?_
          cases rest with
          | nil => exact absurd hrest hne
          | cons k rest => simp [hentry]
      | cons j path =>
        exact leafAt_update fun rest hrest => ih fun heq => hne (by rw [hrest, heq])

@[simp]
theorem labelAt_alter (f : Option α → Option α) (tree : Tree ι β α)
    (path other : List ι) : (alter f tree path).labelAt other = tree.labelAt other := by
  induction path generalizing tree other with
  | nil => cases tree <;> rfl
  | cons i path ih =>
    cases tree with
    | absent | leaf => rfl
    | table label entries =>
      cases path with
      | nil =>
        cases hentry : entries i with
        | table label' below => simp [alter, hentry]
        | absent | leaf =>
          simp only [alter, hentry]
          exact labelAt_update fun rest _ => by simp [hentry]
      | cons j path => exact labelAt_update fun rest _ => ih (entries i) rest

/-! ## Adding a leaf with tables from an allocator -/

/-- The tree with a leaf added at a path that ends in nothing, with the missing
tables taken from the allocator; the tables added before it fails stay. -/
def insert (alloc : σ → Option β × σ) (leaf : α) :
    Tree ι β α → List ι → σ → Bool × σ × Tree ι β α
  | .table label entries, [i], s =>
    if (entries i).isAbsent then
      (true, s, .table label (Function.update entries i (.leaf leaf)))
    else (false, s, .table label entries)
  | .table label entries, i :: j :: path, s =>
    if (entries i).isAbsent then
      match alloc s with
      | (none, s) => (false, s, .table label entries)
      | (some below, s) =>
        let result := insert alloc leaf (.table below fun _ => .absent) (j :: path) s
        (result.1, result.2.1, .table label (Function.update entries i result.2.2))
    else
      let result := insert alloc leaf (entries i) (j :: path) s
      (result.1, result.2.1, .table label (Function.update entries i result.2.2))
  | tree, _, s => (false, s, tree)
termination_by structural _ path _ => path

theorem insert_below (alloc : σ → Option β × σ) (leaf : α)
    (h : (entries i).isAbsent = false) (j : ι) (path : List ι) (s : σ) :
    insert alloc leaf (.table label entries) (i :: j :: path) s =
      ((insert alloc leaf (entries i) (j :: path) s).1,
        (insert alloc leaf (entries i) (j :: path) s).2.1,
        .table label (Function.update entries i
          (insert alloc leaf (entries i) (j :: path) s).2.2)) := by
  rw [insert, if_neg (by simp [h])]

theorem insert_new (alloc : σ → Option β × σ) (leaf : α) {below : β}
    (h : (entries i).isAbsent = true) (j : ι)
    (path : List ι) (halloc : alloc s = (some below, s')) :
    insert alloc leaf (.table label entries) (i :: j :: path) s =
      ((insert alloc leaf (.table below fun _ => .absent) (j :: path) s').1,
        (insert alloc leaf (.table below fun _ => .absent) (j :: path) s').2.1,
        .table label (Function.update entries i
          (insert alloc leaf (.table below fun _ => .absent) (j :: path) s').2.2)) := by
  rw [insert, if_pos h, halloc]

theorem insert_exhausted (alloc : σ → Option β × σ) (leaf : α)
    (h : (entries i).isAbsent = true) (j : ι) (path : List ι) (halloc : alloc s = (none, s')) :
    insert alloc leaf (.table label entries) (i :: j :: path) s =
      (false, s', .table label entries) := by
  rw [insert, if_pos h, halloc]

theorem leafAt_insert (alloc : σ → Option β × σ) (leaf : α) (tree : Tree ι β α)
    (path : List ι) (s : σ) (other : List ι) :
    (insert alloc leaf tree path s).2.2.leafAt other =
      if other = path ∧ (insert alloc leaf tree path s).1 = true then some leaf
      else tree.leafAt other := by
  induction path generalizing tree s other with
  | nil => cases tree <;> simp [insert]
  | cons i path ih =>
    cases tree with
    | absent | leaf => simp [insert]
    | table label entries =>
      cases path with
      | nil =>
        by_cases habsent : (entries i).isAbsent = true
        · simp only [insert, habsent, if_true, and_true]
          cases other with
          | nil => simp
          | cons k other =>
            by_cases hki : k = i
            · subst hki
              cases other with
              | nil => simp
              | cons l other => simp [eq_absent habsent]
            · simp [hki]
        · simp [insert, habsent]
      | cons j path =>
        by_cases habsent : (entries i).isAbsent = true
        · rcases halloc : alloc s with ⟨below, s'⟩
          cases below with
          | none => simp [insert_exhausted alloc leaf habsent j path halloc]
          | some below =>
            rw [insert_new alloc leaf habsent j path halloc]
            cases other with
            | nil => simp
            | cons k other =>
              by_cases hki : k = i
              · subst hki
                rw [leafAt_table_cons, Function.update_self, ih]
                simp [eq_absent habsent]
                cases other <;> simp
              · simp [hki]
        · have hpresent : (entries i).isAbsent = false := by simpa using habsent
          rw [insert_below alloc leaf hpresent]
          cases other with
          | nil => simp
          | cons k other =>
            by_cases hki : k = i
            · subst hki
              rw [leafAt_table_cons, Function.update_self, ih]
              simp
            · simp [hki]

theorem leafAt_of_insert (alloc : σ → Option β × σ) (leaf : α)
    (h : (insert alloc leaf tree path s).1 = true) :
    tree.leafAt path = none := by
  induction path generalizing tree s with
  | nil => cases tree <;> simp [insert] at h ⊢
  | cons i path ih =>
    cases tree with
    | absent | leaf => simp
    | table label entries =>
      rw [leafAt_table_cons]
      by_cases habsent : (entries i).isAbsent = true
      · rw [eq_absent habsent, leafAt_absent]
      have hpresent : (entries i).isAbsent = false := by simpa using habsent
      cases path with
      | nil => simp [insert, hpresent] at h
      | cons j path =>
        rw [insert_below alloc leaf hpresent] at h
        exact ih h

def Supplies (alloc : σ → Option β × σ) : ℕ → σ → Prop
  | 0, _ => True
  | count + 1, s => ∃ label s', alloc s = (some label, s') ∧ Supplies alloc count s'

theorem supplies_succ (h : alloc s = (some label, s')) :
    Supplies alloc (count + 1) s ↔ Supplies alloc count s' := by
  constructor
  · intro hsupply
    obtain ⟨label', s'', halloc, hrest⟩ := hsupply
    rw [h] at halloc
    rwa [(Prod.mk.inj halloc).2]
  · intro hrest
    exact ⟨label, s', h, hrest⟩

theorem not_supplies_succ (h : alloc s = (none, s')) : ¬Supplies alloc (count + 1) s := by
  intro hsupply
  obtain ⟨label, s'', halloc, -⟩ := hsupply
  rw [h] at halloc
  simp at halloc

instance Supplies.decidable (alloc : σ → Option β × σ) :
    (count : ℕ) → (s : σ) → Decidable (Supplies alloc count s)
  | 0, _ => isTrue trivial
  | count + 1, s =>
    match h : alloc s with
    | (none, _) => isFalse (not_supplies_succ h)
    | (some _, s') =>
      match Supplies.decidable alloc count s' with
      | isTrue hrest => isTrue ((supplies_succ h).2 hrest)
      | isFalse hrest => isFalse fun hsupply => hrest ((supplies_succ h).1 hsupply)

theorem Supplies.mono {more : ℕ}
    (h : Supplies alloc more s) (hle : count ≤ more) : Supplies alloc count s := by
  induction count generalizing more s with
  | zero => trivial
  | succ count ih =>
    cases more with
    | zero => exact absurd hle (Nat.not_succ_le_zero count)
    | succ more =>
      obtain ⟨label, s', halloc, hrest⟩ := h
      exact ⟨label, s', halloc, ih hrest (Nat.le_of_succ_le_succ hle)⟩

theorem insert_succeeds (alloc : σ → Option β × σ) (leaf : α)
    (htable : tree.isTable = true) (hpath : path ≠ [])
    (hdepth : HasDepth path.length tree) (habsent : tree.leafAt path = none)
    (hsupply : Supplies alloc (path.length - 1) s) : (insert alloc leaf tree path s).1 = true := by
  induction path generalizing tree s with
  | nil => exact absurd rfl hpath
  | cons i path ih =>
    cases tree with
    | absent | leaf => simp [isTable] at htable
    | table label entries =>
      cases path with
      | nil =>
        have hentry : (entries i).isAbsent = true := by
          cases hentry : entries i with
          | absent => rfl
          | leaf entry => simp [hentry] at habsent
          | table label' below =>
            have hbelow : HasDepth 0 (entries i) := hdepth i
            rw [hentry] at hbelow
            exact absurd hbelow id
        simp [insert, hentry]
      | cons j path =>
        by_cases hentry : (entries i).isAbsent = true
        · obtain ⟨below, s', halloc, hrest⟩ := hsupply
          rw [insert_new alloc leaf hentry j path halloc]
          apply ih
          · rfl
          · simp
          · intro k
            exact hasDepth_absent _
          · simp
          · exact hrest
        · have hpresent : (entries i).isAbsent = false := by simpa using hentry
          have hbelow : HasDepth (j :: path).length (entries i) := hdepth i
          rw [insert_below alloc leaf hpresent]
          apply ih
          · cases hkind : entries i with
            | absent => simp [hkind, isAbsent] at hpresent
            | leaf entry =>
              rw [hkind] at hbelow
              exact absurd hbelow (by simp [HasDepth])
            | table label' below => rfl
          · simp
          · exact hbelow
          · exact habsent
          · exact hsupply.mono (by simp)

/-! ### What an insertion takes from the allocator -/

inductive Taken (alloc : σ → Option β × σ) : σ → List β → σ → Prop
  | none (s : σ) : Taken alloc s [] s
  | exhausted {s s' : σ} (halloc : alloc s = (Option.none, s')) : Taken alloc s [] s'
  | cons {s s' s'' : σ} {label : β} {labels : List β}
      (halloc : alloc s = (some label, s')) (hrest : Taken alloc s' labels s'') :
      Taken alloc s (label :: labels) s''

/-- An insertion adds tables with the labels that it takes and, when it succeeds,
its leaf. -/
theorem weight_insert [Fintype ι] (alloc : σ → Option β × σ) (leaf : α)
    (tree : Tree ι β α) (path : List ι) (s : σ) :
    ∃ labels, Taken alloc s labels (insert alloc leaf tree path s).2.1 ∧
      ∀ onTable onLeaf, (insert alloc leaf tree path s).2.2.weight onTable onLeaf =
        tree.weight onTable onLeaf + (labels.map onTable).sum +
          if (insert alloc leaf tree path s).1 then onLeaf leaf else 0 := by
  induction path generalizing tree s with
  | nil => cases tree <;> exact ⟨[], .none s, fun _ _ => by simp [insert]⟩
  | cons i path ih =>
    cases tree with
    | absent | leaf => exact ⟨[], .none s, fun _ _ => by simp [insert]⟩
    | table label entries =>
      cases path with
      | nil =>
        by_cases habsent : (entries i).isAbsent = true
        · refine ⟨[], by simpa [insert, habsent] using Taken.none s, ?_⟩
          intro onTable onLeaf
          have hupdate := weight_update onTable onLeaf label entries i (.leaf leaf)
          rw [eq_absent habsent, weight_absent, weight_leaf] at hupdate
          simpa [insert, habsent] using hupdate
        · refine ⟨[], by simpa [insert, habsent] using Taken.none s, ?_⟩
          intro onTable onLeaf
          simp [insert, habsent]
      | cons j path =>
        by_cases habsent : (entries i).isAbsent = true
        · rcases halloc : alloc s with ⟨below, s'⟩
          cases below with
          | none =>
            rw [insert_exhausted alloc leaf habsent j path halloc]
            exact ⟨[], .exhausted halloc, fun _ _ => by simp⟩
          | some below =>
            rw [insert_new alloc leaf habsent j path halloc]
            obtain ⟨labels, htaken, hweight⟩ := ih (.table below fun _ => .absent) s'
            refine ⟨below :: labels, .cons halloc htaken, ?_⟩
            intro onTable onLeaf
            have hupdate := weight_update onTable onLeaf label entries i
              (insert alloc leaf (.table below fun _ => .absent) (j :: path) s').2.2
            rw [hweight onTable onLeaf, weight_empty, eq_absent habsent, weight_absent] at hupdate
            simp only [List.map_cons, List.sum_cons]
            omega
        · have hpresent : (entries i).isAbsent = false := by simpa using habsent
          rw [insert_below alloc leaf hpresent]
          obtain ⟨labels, htaken, hweight⟩ := ih (entries i) s
          refine ⟨labels, htaken, ?_⟩
          intro onTable onLeaf
          have hupdate := weight_update onTable onLeaf label entries i
            (insert alloc leaf (entries i) (j :: path) s).2.2
          rw [hweight onTable onLeaf] at hupdate
          simp only
          omega

end Tree

end RadixTables
