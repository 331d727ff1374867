import NPKernel.HeapSoundness

/-!
# What `kheap_validate` accepts

The validator walks the list of blocks and demands that they fill the mapped
window without a gap and that the free bytes add up.  Every call of the allocator
keeps this, with one exception: a growth that maps some of its pages and is then
refused the next one leaves pages that no block covers, and from then on the
validator fails.  A free of a pointer that was never handed out is rejected as long
as the magic number stands only in front of blocks, which clients promise.
-/

namespace NPKernel

open GuardedRuns LinkedSegments Block

variable {h h' : Heap} {bs cs pre post : List Block} {b n : Block} {size : ℕ}

/-! ## Gaps, free bytes and magic numbers -/

def Tiles : ℕ → List Block → ℕ → Prop
  | start, [], stop => start = stop
  | start, b :: bs, stop => b.addr = start ∧ Tiles b.stop bs stop

theorem tiles_append {start stop : ℕ} :
    Tiles start (bs ++ cs) stop ↔ ∃ mid, Tiles start bs mid ∧ Tiles mid cs stop := by
  induction bs generalizing start with
  | nil => simp [Tiles]
  | cons b bs ih => simp only [List.cons_append, Tiles, ih, and_assoc, exists_and_left]

theorem Tiles.exchange {start stop : ℕ} (mid mid' : List Block)
    (htiles : Tiles start (pre ++ (mid ++ post)) stop)
    (hmid : ∀ lo hi, Tiles lo mid hi → Tiles lo mid' hi) :
    Tiles start (pre ++ (mid' ++ post)) stop := by
  simp only [tiles_append] at htiles ⊢
  obtain ⟨lo, hpre, hi, hmids, hpost⟩ := htiles
  exact ⟨lo, hpre, hi, hmid lo hi hmids, hpost⟩

def freeBytes (bs : List Block) : ℕ := (bs.map fun b => if b.free then b.size else 0).sum

@[simp]
theorem freeBytes_nil : freeBytes [] = 0 := rfl

@[simp]
theorem freeBytes_cons : freeBytes (b :: bs) = (if b.free then b.size else 0) + freeBytes bs := rfl

@[simp]
theorem freeBytes_append : freeBytes (bs ++ cs) = freeBytes bs + freeBytes cs := by
  simp [freeBytes]

/-- The magic number stands only in front of blocks. -/
def MagicOnly (h : Heap) (bs : List Block) : Prop :=
  ∀ a, a % NPK_HEAP_ALIGNMENT = 0 → NPK_HEAP_BASE ≤ a → a < NPK_HEAP_BASE + h.mapped →
    h.words a = HEAP_MAGIC → ∃ b ∈ bs, b.addr = a

structure Tidy (h : Heap) (bs : List Block) : Prop where
  ready : h.ready = true
  tiles : Tiles NPK_HEAP_BASE bs (NPK_HEAP_BASE + h.mapped)
  balanced : h.free = freeBytes bs % 2 ^ 64
  magic : MagicOnly h bs

theorem ne_magic_of_aligned {value : ℕ} (haligned : value % NPK_HEAP_ALIGNMENT = 0) :
    value ≠ HEAP_MAGIC := by
  rintro rfl
  exact absurd haligned (by decide)

theorem ne_magic_of_byte {value byte : ℕ} (hbyte : byte < 2) :
    value / 256 * 256 + byte ≠ HEAP_MAGIC := by
  have hmagic : HEAP_MAGIC % 256 = 65 := by decide
  omega

/-- Writes that leave no new magic number but in front of new blocks. -/
theorem MagicOnly.of_words (hmagic : MagicOnly h bs)
    (hwords : ∀ a, a % NPK_HEAP_ALIGNMENT = 0 → NPK_HEAP_BASE ≤ a →
      a < NPK_HEAP_BASE + h'.mapped → h'.words a = HEAP_MAGIC →
        (∃ c ∈ cs, c.addr = a) ∨ (a < NPK_HEAP_BASE + h.mapped ∧ h.words a = HEAP_MAGIC))
    (hgone : ∀ b ∈ bs, (∃ c ∈ cs, c.addr = b.addr) ∨ h'.words b.addr ≠ HEAP_MAGIC) :
    MagicOnly h' cs := by
  intro a haligned hge hlt hvalue
  rcases hwords a haligned hge hlt hvalue with hnew | ⟨hold, hvalue'⟩
  · exact hnew
  · obtain ⟨b, hb, rfl⟩ := hmagic a haligned hge hold hvalue'
    exact (hgone b hb).resolve_right fun hne => hne hvalue

/-! ## The validator -/

theorem validateFrom_eq {fuel address observed : ℕ} (hc : Chain h (pre ++ post))
    (htiles : Tiles address post (NPK_HEAP_BASE + h.mapped)) (hfuel : post.length < fuel)
    (hobserved : observed < 2 ^ 64) :
    h.validateFrom fuel (first Block.addr 0 post) (last Block.addr 0 pre) address observed =
      some ((observed + freeBytes post) % 2 ^ 64 == h.free) := by
  induction post generalizing pre fuel address observed with
  | nil =>
    obtain ⟨fuel, rfl⟩ : ∃ rest, fuel = rest + 1 := Nat.exists_eq_succ_of_ne_zero (by omega)
    have hend : address = NPK_HEAP_BASE + h.mapped := htiles
    have htotal : (observed + freeBytes []) % 2 ^ 64 = observed := Nat.mod_eq_of_lt hobserved
    rw [htotal]
    simp [Heap.validateFrom, hend]
  | cons b post ih =>
    obtain ⟨fuel, rfl⟩ : ∃ rest, fuel = rest + 1 := Nat.exists_eq_succ_of_ne_zero (by omega)
    have hsizes := heap_sizes
    have hbm : b ∈ pre ++ b :: post := by simp
    have hblock := hc.bounds hbm
    obtain ⟨rfl, hrest⟩ := htiles
    have hnext : Chain h ((pre ++ [b]) ++ post) := by simpa using hc
    have hlast : last Block.addr 0 (pre ++ [b]) = b.addr := by simp [last_append]
    have hstep := fun observed hobserved =>
      @ih (pre ++ [b]) fuel b.stop observed hnext hrest (by simpa using hfuel) hobserved
    rw [hlast] at hstep
    have haddress : add64 b.addr (HEAP_HEADER + b.size) = b.stop := by
      rw [add64_eq (by omega)]
      omega
    have hchecks : ¬(b.addr ≠ b.addr || h.magic b.addr ≠ HEAP_MAGIC ||
        h.prev b.addr ≠ last Block.addr 0 pre || h.size b.addr = 0) = true := by
      simp only [hc.magic_eq, hc.prev_eq, hc.size_eq, ne_eq, not_true_eq_false, decide_false,
        Bool.false_or, decide_eq_true_eq]
      omega
    have hbounds : ¬(NPK_HEAP_LIMIT - NPK_HEAP_BASE < h.size b.addr ||
        addOverflowU64 b.addr (HEAP_HEADER + h.size b.addr)) = true := by
      simp only [hc.size_eq, addOverflowU64, Bool.or_eq_true, decide_eq_true_eq]
      omega
    rw [first_cons, Heap.validateFrom, if_neg (by omega), hc.holds hbm, if_neg (by simp),
      if_neg hchecks, if_neg hbounds, hc.next_eq, hc.size_eq, hc.isFree_eq, haddress]
    by_cases hfree : b.free = true
    · rw [if_pos hfree, add64, hstep _ (Nat.mod_lt _ (by decide)), freeBytes_cons, if_pos hfree,
        Nat.mod_add_mod, Nat.add_assoc]
    · rw [if_neg hfree, hstep _ hobserved, freeBytes_cons, if_neg hfree, Nat.zero_add]

theorem Tidy.validate (hc : Chain h bs) (htidy : Tidy h bs) : h.kheapValidate = some true := by
  have hlength := hc.length_le
  have hwalk := @validateFrom_eq h [] bs (h.mapped + 1) NPK_HEAP_BASE 0 hc htidy.tiles (by omega)
    (by decide)
  unfold Heap.kheapValidate
  rw [htidy.ready, hc.head]
  simp only [Bool.not_true, Bool.false_eq_true, if_false]
  refine hwalk.trans ?_
  rw [htidy.balanced, Nat.zero_add, beq_self_eq_true]

/-! ## What the calls keep -/

theorem addr_kept (mid : List Block) (hmid : ∃ c ∈ mid, c.addr = b.addr) (c : Block)
    (hcm : c ∈ pre ++ b :: post) : ∃ d ∈ pre ++ (mid ++ post), d.addr = c.addr := by
  simp only [List.mem_append, List.mem_cons] at hcm ⊢
  rcases hcm with hpre | rfl | hpost
  · exact ⟨c, .inl hpre, rfl⟩
  · obtain ⟨d, hd, haddr⟩ := hmid
    exact ⟨d, .inr (.inl hd), haddr⟩
  · exact ⟨c, .inr (.inr hpost), rfl⟩

theorem MagicOnly.setFree {byte : ℕ} (hmagic : MagicOnly h bs) (hbyte : byte < 2)
    (haddr : ∀ c ∈ bs, ∃ c' ∈ cs, c'.addr = c.addr) :
    MagicOnly (h.setFree b.addr byte) cs := by
  refine hmagic.of_words (fun a haligned hge hlt hvalue => .inr ⟨hlt, ?_⟩) fun c hcm =>
    .inl (haddr c hcm)
  by_cases ha : a = b.addr + 16
  · subst ha
    simp only [Heap.setFree, Heap.setWord, Function.update_self] at hvalue
    exact absurd hvalue (ne_magic_of_byte hbyte)
  · simpa [Heap.setFree, Heap.setWord, ha] using hvalue

theorem relink_magic {a value : ℕ} (hvalue : value % NPK_HEAP_ALIGNMENT = 0)
    (hword : (h.relink post value).words a = HEAP_MAGIC) : h.words a = HEAP_MAGIC := by
  cases post with
  | nil => exact hword
  | cons c rest =>
    by_cases ha : a = c.addr + 32
    · subst ha
      simp only [Heap.relink, Heap.setPrev, Heap.setWord, Function.update_self] at hword
      exact absurd hword (ne_magic_of_aligned hvalue)
    · simpa [Heap.relink, Heap.setPrev, Heap.setWord, ha] using hword

theorem writeHeader_magic {prev next a : ℕ} (haligned : a % NPK_HEAP_ALIGNMENT = 0)
    (hblock : b.addr % NPK_HEAP_ALIGNMENT = 0) (hprev : prev % NPK_HEAP_ALIGNMENT = 0)
    (hword : (h.writeHeader b prev next).words a = HEAP_MAGIC) :
    a = b.addr ∨ h.words a = HEAP_MAGIC := by
  rw [writeHeader_words] at hword
  rw [heap_sizes.2.1] at haligned hblock
  split_ifs at hword with h32 h24 h16 h8 h0
  · exact absurd hword (ne_magic_of_aligned hprev)
  · omega
  · exact absurd hword (ne_magic_of_byte (by decide))
  · omega
  · exact .inl h0
  · exact .inr hword

theorem splitted_magic {a : ℕ} (hc : Chain h (pre ++ b :: post))
    (hsized : size % NPK_HEAP_ALIGNMENT = 0) (haligned : a % NPK_HEAP_ALIGNMENT = 0)
    (hword : (h.splitted b size post).words a = HEAP_MAGIC) :
    a = (b.back size).addr ∨ h.words a = HEAP_MAGIC := by
  have hsizes := heap_sizes
  have hblock := (hc.inside b (by simp)).aligned
  have hback : (b.back size).addr % NPK_HEAP_ALIGNMENT = 0 := by
    have hback := b.back_addr size
    rw [hsizes.2.1] at hsized hblock ⊢
    omega
  have hword' : ((h.writeHeader (b.back size) b.addr (first Block.addr 0 post)).relink post
      (b.back size).addr).words a = HEAP_MAGIC := by
    rw [hsizes.2.1] at haligned hblock
    simp only [Heap.splitted, Heap.setSize, Heap.setNext, Heap.setWord] at hword
    rwa [Function.update_of_ne (by omega), Function.update_of_ne (by omega)] at hword
  exact writeHeader_magic haligned hback hblock (relink_magic hback hword')

theorem Tidy.taken {pointer : ℕ} (hc : Chain h bs) (htidy : Tidy h bs)
    (htaken : Taken h size bs pointer h' cs) : Tidy h' cs := by
  have hsizes := heap_sizes
  have hfreeBytes := htidy.balanced
  cases htaken with
  | whole pre b post hfree hsize =>
    have hbounds := hc.bounds (show b ∈ pre ++ b :: post by simp)
    refine ⟨htidy.ready, ?_, ?_, ?_⟩
    · exact htidy.tiles.exchange [b] [b.used] fun lo hi hmid => hmid
    · simp only [freeBytes_append, freeBytes_cons, hfree, if_true] at hfreeBytes
      simp only [Heap.taken, freeBytes_append, freeBytes_cons, Block.used, Bool.false_eq_true,
        if_false, hfreeBytes, sub64]
      omega
    · exact htidy.magic.setFree (by decide) (addr_kept [b.used] ⟨b.used, by simp, rfl⟩)
  | front pre b post hfree hpos hsized hfit =>
    have hbounds := hc.bounds (show b ∈ pre ++ b :: post by simp)
    have hbackSize : (b.back size).size = b.size - size - HEAP_HEADER := rfl
    refine ⟨splitted_ready.trans htidy.ready, ?_, ?_, ?_⟩
    · rw [Heap.taken]
      refine (splitted_mapped ▸ htidy.tiles).exchange [b] [(b.front size).used, b.back size] ?_
      rintro lo hi ⟨rfl, hend⟩
      refine ⟨rfl, rfl, ?_⟩
      have hend' : b.stop = hi := hend
      change (b.back size).addr + HEAP_HEADER + (b.back size).size = hi
      have hback := b.back_addr size
      omega
    · have hback : (b.back size).free = true := rfl
      simp only [freeBytes_append, freeBytes_cons, hfree, if_true] at hfreeBytes
      simp only [Heap.taken, freeBytes_append, freeBytes_cons, Block.used, Bool.false_eq_true,
        if_false, hback, if_true, splitted_free, hfreeBytes, sub64]
      omega
    · have hmid : MagicOnly (h.splitted b size post)
          (pre ++ b.front size :: b.back size :: post) := by
        refine htidy.magic.of_words (fun a haligned hge hlt hvalue => ?_) fun c hcm => ?_
        · rcases splitted_magic hc hsized haligned hvalue with rfl | hold
          · exact .inl ⟨b.back size, by simp, rfl⟩
          · exact .inr ⟨by simpa using hlt, hold⟩
        · exact .inl (addr_kept (b := b) [_, _] ⟨b.front size, by simp, rfl⟩ c hcm)
      exact hmid.setFree (by decide) (addr_kept [_] ⟨(b.front size).used, by simp, rfl⟩)

theorem Tidy.grown (hc : Chain h bs) (htidy : Tidy h bs) (hgrown : Grown h bs h' cs) :
    Tidy h' cs := by
  have hsizes := heap_sizes
  cases hgrown with
  | intro pre l pages hpages hwindow =>
    have hlin := (hc.inside l (by simp)).aligned
    have hin := newBlock_inside hc hpages
    have hsize : (h.newBlock pages).size = pages * NPK_HEAP_PAGE - HEAP_HEADER := rfl
    have haddr : (h.newBlock pages).addr = NPK_HEAP_BASE + h.mapped := rfl
    have hmapped : ((h.stretched pages).appended l (h.newBlock pages)).mapped =
      h.mapped + pages * NPK_HEAP_PAGE := rfl
    refine ⟨htidy.ready, ?_, ?_, ?_⟩
    · have htiles : Tiles NPK_HEAP_BASE ((pre ++ [l]) ++ [h.newBlock pages])
          (NPK_HEAP_BASE + (h.mapped + pages * NPK_HEAP_PAGE)) := by
        refine tiles_append.2 ⟨_, htidy.tiles, rfl, ?_⟩
        change (h.newBlock pages).addr + HEAP_HEADER + (h.newBlock pages).size = _
        rw [hsizes.2.2.1] at hsize ⊢
        omega
      rw [hmapped]
      simpa using htiles
    · have hfree : ((h.stretched pages).appended l (h.newBlock pages)).free =
        add64 h.free (h.newBlock pages).size := rfl
      rw [hfree, htidy.balanced, add64]
      simp only [freeBytes_append, freeBytes_cons, freeBytes_nil,
        show (h.newBlock pages).free = true from rfl, if_true]
      omega
    · refine htidy.magic.of_words (fun a haligned hge hlt hvalue => ?_) fun c hcm => ?_
      · rw [appended_words] at hvalue
        split_ifs at hvalue with h32 h24
        · exact absurd hvalue (ne_magic_of_aligned hlin)
        · rw [hsizes.2.1] at haligned hlin
          omega
        · rcases writeHeader_magic haligned hin.aligned (by decide) hvalue with rfl | hold
          · exact .inl ⟨h.newBlock pages, by simp, rfl⟩
          · rw [stretched_words] at hold
            split_ifs at hold with hnew
            · exact absurd hold (by decide)
            · rw [hmapped] at hlt
              exact .inr ⟨by omega, hold⟩
      · left
        have hcm' := List.mem_append.1 hcm
        simp only [List.mem_singleton] at hcm'
        exact ⟨c, by simp only [List.mem_append, List.mem_cons]; tauto, rfl⟩

theorem Tidy.released (htidy : Tidy h (pre ++ b :: post)) (hused : b.free = false) :
    Tidy (h.released b) (pre ++ b.unused :: post) := by
  have hfreeBytes := htidy.balanced
  refine ⟨htidy.ready, ?_, ?_, ?_⟩
  · exact htidy.tiles.exchange [b] [b.unused] fun lo hi hmid => hmid
  · have hfree : (h.released b).free = add64 h.free b.size := rfl
    simp only [freeBytes_append, freeBytes_cons, hused, Bool.false_eq_true, if_false] at hfreeBytes
    simp only [hfree, freeBytes_append, freeBytes_cons, Block.unused, if_true, hfreeBytes, add64]
    omega
  · exact htidy.magic.setFree (by decide) (addr_kept [b.unused] ⟨b.unused, by simp, rfl⟩)

theorem merged_magic {a : ℕ} (hc : Chain h (pre ++ b :: n :: post))
    (haligned : a % NPK_HEAP_ALIGNMENT = 0) (hword : (h.merged b n post).words a = HEAP_MAGIC) :
    a ≠ n.addr ∧ h.words a = HEAP_MAGIC := by
  have hblock := (hc.inside b (by simp)).aligned
  have hrest : a ≠ n.addr + 16 ∧ a ≠ n.addr ∧
      ((((h.setSize b.addr (b.join n).size).addFree HEAP_HEADER).setNext b.addr
        (first Block.addr 0 post)).relink post b.addr).words a = HEAP_MAGIC := by
    simp only [Heap.merged, Heap.setFree, Heap.setMagic, Heap.setWord, Function.update_apply]
      at hword
    by_cases h16 : a = n.addr + 16
    · rw [if_pos h16] at hword
      exact absurd hword (ne_magic_of_byte (by decide))
    rw [if_neg h16] at hword
    by_cases h0 : a = n.addr
    · rw [if_pos h0] at hword
      exact absurd hword (by decide)
    · rw [if_neg h0] at hword
      exact ⟨h16, h0, hword⟩
  refine ⟨hrest.2.1, ?_⟩
  have hword' := relink_magic hblock hrest.2.2
  rw [heap_sizes.2.1] at haligned hblock
  simp only [Heap.setNext, Heap.addFree, Heap.setSize, Heap.setWord] at hword'
  rwa [Function.update_of_ne (by omega), Function.update_of_ne (by omega)] at hword'

theorem Tidy.merged (hc : Chain h (pre ++ b :: n :: post)) (htidy : Tidy h (pre ++ b :: n :: post))
    (hfree : b.free = true) (hjoins : b.joins n = true) :
    Tidy (h.merged b n post) (pre ++ b.join n :: post) := by
  have hsizes := heap_sizes
  have hfreeBytes := htidy.balanced
  have hjoin := hjoins
  simp only [Block.joins, Bool.and_eq_true, beq_iff_eq] at hjoin
  refine ⟨merged_ready.trans htidy.ready, ?_, ?_, ?_⟩
  · rw [merged_mapped]
    refine htidy.tiles.exchange [b, n] [b.join n] ?_
    rintro lo hi ⟨rfl, haddr, hend⟩
    refine ⟨rfl, ?_⟩
    have hend' : n.addr + HEAP_HEADER + n.size = hi := hend
    have hstop := b.stop_eq
    change b.addr + HEAP_HEADER + (b.size + (HEAP_HEADER + n.size)) = hi
    omega
  · have hjoined : (b.join n).free = true := hfree
    have hsize : (b.join n).size = b.size + (HEAP_HEADER + n.size) := rfl
    simp only [freeBytes_append, freeBytes_cons, hfree, hjoin.1, if_true] at hfreeBytes
    simp only [merged_free, freeBytes_append, freeBytes_cons, hjoined, if_true, hsize, hfreeBytes,
      add64]
    omega
  · refine htidy.magic.of_words (fun a haligned hge hlt hvalue => .inr ⟨by simpa using hlt, ?_⟩)
      fun c hcm => ?_
    · exact (merged_magic hc haligned hvalue).2
    · simp only [List.mem_append, List.mem_cons] at hcm
      rcases hcm with hpre | rfl | rfl | hpost
      · exact .inl ⟨c, by simp [hpre], rfl⟩
      · exact .inl ⟨c.join n, by simp, rfl⟩
      · right
        intro hvalue
        have haligned := (hc.inside c (by simp)).aligned
        exact (merged_magic hc haligned hvalue).1 rfl
      · exact .inl ⟨c, by simp [hpost], rfl⟩

theorem Tidy.merges (hc : Chain h bs) (htidy : Tidy h bs) (hmerges : Merges h bs h' cs) :
    Tidy h' cs := by
  induction hmerges with
  | refl => exact htidy
  | step pre b n post hfree hjoins hrest ih =>
    exact ih (hc.merge hjoins) (htidy.merged hc hfree hjoins)

theorem Tidy.written (htidy : Tidy h bs) {words : ℕ → ℕ}
    (hwords : ∀ a, words a = h.words a ∨ words a ≠ HEAP_MAGIC) :
    Tidy { h with words := words } bs := by
  refine ⟨htidy.ready, htidy.tiles, htidy.balanced, fun a haligned hge hlt hvalue => ?_⟩
  rcases hwords a with hsame | hother
  · exact htidy.magic a haligned hge hlt (hsame.symm.trans hvalue)
  · exact absurd hvalue hother

theorem kheapInit_tidy (words : ℕ → ℕ) : Tidy (Heap.kheapInit true words) [Heap.firstBlock] := by
  rw [kheapInit_eq]
  refine ⟨rfl, ⟨rfl, ?_⟩, ?_, fun a haligned hge hlt hvalue => ?_⟩
  · change Heap.firstBlock.stop = NPK_HEAP_BASE + (0 + NPK_HEAP_PAGE)
    decide
  · change Heap.firstBlock.size = _
    decide
  · rcases writeHeader_magic haligned (by decide) (by decide) hvalue with rfl | hold
    · exact ⟨Heap.firstBlock, by simp, rfl⟩
    · have hzero : (Heap.empty words).grow.words a = 0 := by
        refine if_pos ⟨hge, ?_⟩
        have hlt' : a < NPK_HEAP_BASE + (0 + NPK_HEAP_PAGE) := hlt
        omega
      exact absurd (hzero.symm.trans hold) (by decide)

/-! ## Runs -/

/-- A growth that gets its first page gets all of them. -/
def Heap.GrowsWhole (h : Heap) (grants : ℕ → Bool) (size : ℕ) : Prop :=
  h.findFree (Heap.rounded size) (h.mapped + 1) h.head = some 0 →
    h.target size ≤ NPK_HEAP_LIMIT - NPK_HEAP_BASE → grants 0 = true →
      ∀ k < h.pagesTo (h.target size), grants k = true

inductive HeapOperation where
  | plain (event : HeapEvent)
  | kcalloc (grants : ℕ → Bool) (count size : ℕ)

namespace HeapState

def operate (s : HeapState) : HeapOperation → Option HeapState
  | .plain event => s.perform event
  | .kcalloc grants count size =>
    match s.heap.kcalloc grants count size with
    | none => none
    | some (pointer, heap) =>
      some { heap := heap
             live := if pointer = 0 then s.live
               else ⟨pointer, count * size % 2 ^ 64⟩ :: s.live }

/-- Sizes are below the window, pointers aligned, and clients store only into what
they hold and never the magic number. -/
def Permitted (s : HeapState) : HeapOperation → Prop
  | .plain (.kmalloc _ size) => size < NPK_HEAP_LIMIT - NPK_HEAP_BASE
  | .plain (.kfree pointer) => pointer % NPK_HEAP_ALIGNMENT = 0
  | .plain (.store address value) => value.toNat ≠ HEAP_MAGIC ∧ s.Proper (.store address value)
  | .kcalloc _ count size =>
    count < NPK_HEAP_LIMIT - NPK_HEAP_BASE ∧ size < NPK_HEAP_LIMIT - NPK_HEAP_BASE

def GrowsWhole (s : HeapState) : HeapOperation → Prop
  | .plain (.kmalloc grants size) => s.heap.GrowsWhole grants size
  | .kcalloc grants count size => s.heap.GrowsWhole grants (count * size % 2 ^ 64)
  | _ => True

def Valid (s : HeapState) : Prop :=
  ∃ bs, Chain s.heap bs ∧ bs ≠ [] ∧ Tidy s.heap bs ∧ Backed bs s.live

variable {s : HeapState}

theorem valid_kmalloc {grants : ℕ → Bool} (hs : s.Valid)
    (hsize : size ≤ 2 ^ 64 - 64 ∨ 2 ^ 64 - 16 < size) (hwhole : s.heap.GrowsWhole grants size) :
    ∃ pointer h', s.heap.kmalloc grants size = some (pointer, h') ∧
      Valid ⟨h', if pointer = 0 then s.live else ⟨pointer, size⟩ :: s.live⟩ := by
  obtain ⟨bs, hc, hne, htidy, hbacked⟩ := hs
  obtain ⟨pointer, h', cs, hkmalloc, halloc⟩ := kmalloc_allocated hc hne grants hsize
  refine ⟨pointer, h', hkmalloc, cs, halloc.chain hc, halloc.ne_nil hne, ?_,
    hbacked.allocated hc halloc⟩
  cases halloc with
  | refused => exact htidy
  | stopped pages hpages hgranted hrefused htarget hwindow hnone =>
    rcases Nat.eq_zero_or_pos pages with rfl | hpos
    · rwa [stretched_zero]
    · have hall := hwhole hnone htarget (hgranted 0 hpos) pages hpages
      rw [hrefused] at hall
      exact absurd hall (by decide)
  | taken hpos htaken => exact htidy.taken hc htaken
  | grown hpos hgrown htaken => exact (htidy.grown hc hgrown).taken (hgrown.chain hc) htaken

theorem Valid.written (hs : s.Valid) {words : ℕ → ℕ} (hwords : ∀ a, words a = s.heap.words a ∨
      words a ≠ HEAP_MAGIC ∧ ∃ x ∈ s.live, x.pointer ≤ a ∧ a < x.stop) :
    Valid { s with heap := { s.heap with words := words } } := by
  obtain ⟨bs, hc, hne, htidy, hbacked⟩ := hs
  refine ⟨bs, hc.congr rfl (le_refl _) hc.page hc.window ?_, hne, htidy.written ?_, hbacked⟩
  · intro c hcm a hca
    rcases hwords a with hsame | ⟨-, x, hx, hge, hlt⟩
    · exact hsame
    · exact absurd hca (hbacked.outside hc hx hge hlt c hcm)
  · exact fun a => (hwords a).imp_right And.left

theorem cleared_ne_magic {value bytes : ℕ} (hbytes : 0 < bytes) :
    value / 256 ^ bytes * 256 ^ bytes ≠ HEAP_MAGIC := by
  obtain ⟨rest, rfl⟩ : ∃ rest, bytes = rest + 1 := Nat.exists_eq_succ_of_ne_zero (by omega)
  have hmagic : HEAP_MAGIC % 256 = 65 := by decide
  intro heq
  have hmod : value / 256 ^ (rest + 1) * 256 ^ (rest + 1) % 256 = 0 := by
    rw [pow_succ, ← Nat.mul_assoc, Nat.mul_mod_left]
  omega

theorem valid_kcalloc {grants : ℕ → Bool} {count : ℕ} (hs : s.Valid)
    (hsize : count * size % 2 ^ 64 ≤ 2 ^ 64 - 64 ∨ 2 ^ 64 - 16 < count * size % 2 ^ 64)
    (hwhole : s.heap.GrowsWhole grants (count * size % 2 ^ 64)) :
    ∃ next, s.operate (.kcalloc grants count size) = some next ∧ next.Valid := by
  unfold operate Heap.kcalloc
  by_cases hover : (decide (count ≠ 0) && decide ((2 ^ 64 - 1) / count < size)) = true
  · simp only [if_pos hover]
    exact ⟨s, rfl, hs⟩
  simp only [if_neg hover]
  obtain ⟨pointer, h', hkmalloc, hvalid⟩ := valid_kmalloc hs hsize hwhole
  rw [hkmalloc]
  by_cases hnull : pointer = 0
  · rw [if_pos hnull] at hvalid
    simp only [hnull, ne_eq, not_true_eq_false, if_false, if_true]
    exact ⟨_, rfl, hvalid⟩
  rw [if_neg hnull] at hvalid
  simp only [if_pos (show pointer ≠ 0 from hnull), if_neg hnull]
  refine ⟨_, rfl, ?_⟩
  refine hvalid.written fun a => ?_
  by_cases ha : pointer ≤ a ∧ a < pointer + count * size % 2 ^ 64
  · right
    refine ⟨?_, ⟨pointer, count * size % 2 ^ 64⟩, List.mem_cons_self, ha⟩
    simp only [if_pos ha]
    exact cleared_ne_magic (by omega)
  · exact .inl (if_neg ha)

theorem valid_kfree {pointer : ℕ} (hs : s.Valid) (haligned : pointer % NPK_HEAP_ALIGNMENT = 0) :
    ∃ next, s.perform (.kfree pointer) = some next ∧ next.Valid := by
  have hsizes := heap_sizes
  obtain ⟨bs, hc, hne, htidy, hbacked⟩ := hs
  by_cases hblock : ∃ b ∈ bs, b.free = false ∧ b.body = pointer
  · obtain ⟨b, hb, hused, rfl⟩ := hblock
    obtain ⟨pre, post, rfl⟩ := List.append_of_mem hb
    obtain ⟨h', cs, hkfree, hmerges⟩ := kfree_merges hc hused
    have hperform : s.perform (.kfree b.body) =
        some ⟨h', s.live.filter fun x => x.pointer ≠ b.body⟩ := by
      simp only [perform, hkfree]
    refine ⟨_, hperform, cs, hmerges.chain hc.released,
      hmerges.ne_nil (by simp), ?_, hbacked.freed hc hmerges⟩
    exact (htidy.released hused).merges hc.released hmerges
  · -- The pointer is rejected: no magic number, or a block that is free already.
    have hrejected : s.heap.kfree pointer = some s.heap := by
      unfold Heap.kfree
      by_cases hzero : pointer = 0
      · exact if_pos hzero
      rw [if_neg hzero]
      by_cases hpointer : s.heap.pointerInHeap pointer = true
      · rw [hpointer]
        have hrange := hpointer
        simp only [Heap.pointerInHeap, Bool.and_eq_true, decide_eq_true_eq] at hrange
        rw [if_neg (by simp), if_pos]
        simp only [Bool.or_eq_true, decide_eq_true_eq]
        by_cases hmagic : s.heap.magic (pointer - HEAP_HEADER) = HEAP_MAGIC
        · obtain ⟨b, hb, haddr⟩ := htidy.magic (pointer - HEAP_HEADER)
            (by rw [hsizes.2.1] at haligned ⊢; omega) (by omega) (by omega) hmagic
          obtain ⟨pre, post, rfl⟩ := List.append_of_mem hb
          refine .inl (.inr ?_)
          rw [← haddr, hc.isFree_eq]
          by_contra hused
          refine hblock ⟨b, hb, by simpa using hused, ?_⟩
          simp only [Block.body]
          omega
        · exact .inl (.inl hmagic)
      · rw [if_pos (by simpa using hpointer)]
    have hperform : s.perform (.kfree pointer) =
        some ⟨s.heap, s.live.filter fun x => x.pointer ≠ pointer⟩ := by
      simp only [perform, hrejected]
    refine ⟨_, hperform, bs, hc, hne, htidy, ?_⟩
    exact ⟨fun x hx => hbacked.block x (List.mem_filter.1 hx).1, hbacked.distinct.filter _⟩

theorem operate_valid {operation : HeapOperation} (hs : s.Valid)
    (hpermitted : s.Permitted operation) (hwhole : s.GrowsWhole operation) :
    ∃ next, s.operate operation = some next ∧ next.Valid := by
  have hwindow : NPK_HEAP_LIMIT - NPK_HEAP_BASE ≤ 2 ^ 26 := by decide
  match operation, hpermitted, hwhole with
  | .plain (.kmalloc grants size), hsize, hwhole =>
    have hsize' : size < NPK_HEAP_LIMIT - NPK_HEAP_BASE := hsize
    obtain ⟨pointer, h', hkmalloc, hvalid⟩ := valid_kmalloc hs (.inl (by omega)) hwhole
    refine ⟨_, ?_, hvalid⟩
    simp only [operate, perform, hkmalloc]
  | .plain (.kfree pointer), haligned, _ => exact valid_kfree hs haligned
  | .plain (.store address value), hstore, _ =>
    obtain ⟨hvalue, -, x, hx, hge, hlt⟩ := hstore
    refine ⟨_, rfl, hs.written fun a => ?_⟩
    by_cases ha : a = address
    · subst ha
      right
      rw [Function.update_self]
      exact ⟨hvalue, x, hx, hge, hlt⟩
    · exact .inl (Function.update_of_ne ha _ _)
  | .kcalloc grants count size, hsize, hwhole =>
    have hproduct : count * size ≤ 2 ^ 26 * 2 ^ 26 :=
      Nat.mul_le_mul (hsize.1.le.trans hwindow) (hsize.2.le.trans hwindow)
    exact valid_kcalloc hs (.inl (by omega)) hwhole

theorem valid_start (words : ℕ → ℕ) : (start true words).Valid := by
  refine ⟨_, kheapInit_chain words, by simp, kheapInit_tidy words, ?_⟩
  constructor <;> simp [start]

theorem heap_stays_valid (words : ℕ → ℕ) (operations : List HeapOperation)
    (hguard : Guarded operate (fun s operation => s.Permitted operation ∧ s.GrowsWhole operation)
      (start true words) operations) :
    ∃ last, run operate (start true words) operations = some last ∧
      last.heap.kheapValidate = some true := by
  obtain ⟨last, hrun, bs, hc, -, htidy, -⟩ := total_run
    (fun s operation hs hguard => @operate_valid s operation hs hguard.1 hguard.2)
    (valid_start words) hguard
  exact ⟨last, hrun, htidy.validate hc⟩

instance (s : HeapState) : (operation : HeapOperation) → Decidable (s.Permitted operation)
  | .plain (.kmalloc _ _) => inferInstanceAs (Decidable (_ < _))
  | .plain (.kfree _) => inferInstanceAs (Decidable (_ = _))
  | .plain (.store _ _) => inferInstanceAs (Decidable (_ ∧ _))
  | .kcalloc _ _ _ => inferInstanceAs (Decidable (_ ∧ _))

instance (h : Heap) (grants : ℕ → Bool) (size : ℕ) : Decidable (h.GrowsWhole grants size) := by
  unfold Heap.GrowsWhole
  infer_instance

instance (s : HeapState) : (operation : HeapOperation) → Decidable (s.GrowsWhole operation)
  | .plain (.kmalloc grants size) => inferInstanceAs (Decidable (s.heap.GrowsWhole grants size))
  | .plain (.kfree _) => .isTrue trivial
  | .plain (.store _ _) => .isTrue trivial
  | .kcalloc _ _ _ => inferInstanceAs (Decidable (s.heap.GrowsWhole _ _))

/-- A growth, a refused growth, and frees of a block, of it again and of an address
inside a block. -/
def sampleOperations : List HeapOperation :=
  [.kcalloc (fun _ => true) 3 1500, .plain (.kmalloc (fun _ => false) 9000),
    .plain (.store (NPK_HEAP_BASE + NPK_HEAP_PAGE + HEAP_HEADER) 5),
    .plain (.kfree (NPK_HEAP_BASE + NPK_HEAP_PAGE + 64)),
    .plain (.kfree (NPK_HEAP_BASE + NPK_HEAP_PAGE + HEAP_HEADER)),
    .plain (.kfree (NPK_HEAP_BASE + NPK_HEAP_PAGE + HEAP_HEADER))]

theorem heap_stays_valid_sample :
    ∃ last, run operate (start true fun _ => 0) sampleOperations = some last ∧
      last.heap.kheapValidate = some true :=
  heap_stays_valid (fun _ => 0) sampleOperations (by decide +kernel)

/-- A request for 8000 bytes that gets the first of its two pages. -/
def stoppedGrowth : HeapOperation := .plain (.kmalloc (fun k => k == 0) 8000)

theorem stopped_growth_invalid :
    Guarded operate Permitted (start true fun _ => 0) [stoppedGrowth] ∧
      ∃ last, run operate (start true fun _ => 0) [stoppedGrowth] = some last ∧
        last.heap.kheapValidate = some false := by
  refine ⟨by decide, ?_⟩
  have hvalid : (run operate (start true fun _ => 0) [stoppedGrowth]).map
      (fun s => s.heap.kheapValidate) = some (some false) := by
    decide
  obtain ⟨last, hrun, hlast⟩ := Option.map_eq_some_iff.1 hvalid
  exact ⟨last, hrun, hlast⟩

end HeapState

end NPKernel
