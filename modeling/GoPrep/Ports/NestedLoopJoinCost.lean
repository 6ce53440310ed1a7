import GoPrep.Ports.NestedLoopJoin

/-!
# What the block nested loop join reads

`visitedBlocks` lists the blocks `[blockStart, blockEnd)` that the outermost
loop of `blockNestedLoopJoin` runs through.  They cut the page indices of the
outer table into consecutive ranges, the last one possibly short, and each of
them costs one scan of the inner table.

## Main results

* `blockLoop_eq_foldl` — the loop is a fold over the blocks it visits.
* `visitedBlocks_spec` — the blocks are the pages in order, no start wraps, and
  there are `⌈M / B⌉` of them.
* `blockNestedLoopJoin_exact` — result and page count for every block size.
-/

namespace GoPrep.Ports.NestedLoopJoin

open GoPrep.Verified.EquiJoin
open GoPrep.Ports.JoinRows

/-- A block, by the indices of its first page and of the page after it. -/
structure Block where
  blockStart : UInt64
  blockEnd : UInt64
  deriving DecidableEq, Repr

/-- The indices of the pages of a block. -/
def Block.pages (block : Block) : List Nat :=
  List.range' block.blockStart.toNat
    (block.blockEnd.toNat - block.blockStart.toNat)

/-- The blocks that the loop from `blockStart` visits. -/
def visitedBlocks (outer : Table) (blockSizePages : UInt64) :
    Nat → UInt64 → List Block
  | 0, _ => []
  | fuel + 1, blockStart =>
      if blockStart < outer.size then
        ⟨blockStart, min (blockStart + blockSizePages) outer.size⟩ ::
          visitedBlocks outer blockSizePages fuel (blockStart + blockSizePages)
      else []

/-- The inner table is scanned once for a block. -/
def scanBlock (outer inner : Table) (predicate : Row → Row → Bool)
    (acc : Progress) (block : Block) : Progress :=
  inner.pages.foldl (scanPage outer predicate block.blockStart.toNat
    block.blockEnd.toNat) acc

/-- **The loop is a fold over the blocks it visits.** -/
theorem blockLoop_eq_foldl (outer inner : Table)
    (predicate : Row → Row → Bool) (blockSizePages : UInt64) (fuel : Nat) :
    ∀ (blockStart : UInt64) (acc out : Progress),
      blockLoop outer inner predicate blockSizePages fuel blockStart acc =
        some out →
      out = (visitedBlocks outer blockSizePages fuel blockStart).foldl
        (scanBlock outer inner predicate) acc := by
  induction fuel with
  | zero => intro _ _ _ h; exact absurd h (by simp [blockLoop])
  | succ fuel ih =>
      intro blockStart acc out h
      rw [blockLoop] at h
      rw [visitedBlocks]
      split at h
      next hlt =>
        rw [if_pos hlt, List.foldl_cons]
        exact ih _ _ _ h
      next hge =>
        rw [if_neg hge]
        exact (Option.some.inj h).symm

/-- The quotient rounded up. -/
def ceilDiv (x n : Nat) : Nat := (x + (n - 1)) / n

theorem ceilDiv_zero (n : Nat) : ceilDiv 0 n = 0 := by
  rcases Nat.eq_zero_or_pos n with rfl | hn
  · rfl
  · unfold ceilDiv
    exact Nat.div_eq_of_lt (by omega)

/-- A positive number has one block more than what is left after a block. -/
theorem ceilDiv_sub {x n : Nat} (hn : 0 < n) (hx : 0 < x) :
    ceilDiv (x - n) n + 1 = ceilDiv x n := by
  unfold ceilDiv
  by_cases hle : n ≤ x
  · rw [show x + (n - 1) = x - n + (n - 1) + n by omega,
      Nat.add_div_right _ hn]
  · rw [show x - n = 0 by omega, Nat.div_eq_of_lt (by omega : 0 + (n - 1) < n)]
    symm
    rw [Nat.div_eq_iff hn]
    omega

/-- What the blocks from `blockStart` on are. -/
structure BlocksFrom (outer : Table) (blockSizePages : UInt64) (start : Nat)
    (blocks : List Block) : Prop where
  /-- They cut the remaining pages into consecutive ranges. -/
  pages : blocks.flatMap Block.pages =
    List.range' start (outer.pages.length - start)
  length : blocks.length =
    ceilDiv (outer.pages.length - start) blockSizePages.toNat
  /-- The next start is computed without wrapping. -/
  noWrap : ∀ block ∈ blocks, (block.blockStart + blockSizePages).toNat =
    block.blockStart.toNat + blockSizePages.toNat

/-- A range of indices is a block of it and the range after the block. -/
theorem range'_min_append {start size n : Nat} (hstart : start ≤ size) :
    List.range' start (min (start + n) size - start) ++
        List.range' (start + n) (size - (start + n)) =
      List.range' start (size - start) := by
  by_cases hle : start + n ≤ size
  · rw [Nat.min_eq_left hle, Nat.add_sub_cancel_left, List.range'_append_1]
    congr 1
    omega
  · have hnone : size - (start + n) = 0 := by omega
    rw [Nat.min_eq_right (by omega), hnone, List.range'_zero,
      List.append_nil]

theorem visitedBlocks_spec (outer : Table) {blockSizePages : UInt64}
    (hB : 1 ≤ blockSizePages) (fuel : Nat) :
    ∀ blockStart : UInt64, BlockAligned blockSizePages blockStart →
      outer.pages.length - blockStart.toNat < fuel →
      BlocksFrom outer blockSizePages blockStart.toNat
        (visitedBlocks outer blockSizePages fuel blockStart) := by
  have hB' : 1 ≤ blockSizePages.toNat := UInt64.le_iff_toNat_le.mp hB
  induction fuel with
  | zero => intro _ _ hfuel; exact absurd hfuel (Nat.not_lt_zero _)
  | succ fuel ih =>
      intro blockStart haligned hfuel
      rw [visitedBlocks]
      by_cases hlt : blockStart < outer.size
      · have hnext := toNat_blockStart_add haligned hlt
        have hltNat := Table.lt_size_iff.mp hlt
        have hrest := ih (blockStart + blockSizePages) (haligned.next hlt)
          (by omega)
        rw [hnext] at hrest
        rw [if_pos hlt]
        refine ⟨?_, ?_, ?_⟩
        · -- the first block ends where the next one starts, or at the end
          rw [List.flatMap_cons, hrest.pages, Block.pages]
          show List.range' blockStart.toNat
              ((min (blockStart + blockSizePages) outer.size).toNat -
                blockStart.toNat) ++ _ = _
          rw [toNat_min, hnext, Table.toNat_size]
          exact range'_min_append (Nat.le_of_lt hltNat)
        · rw [List.length_cons, hrest.length, Nat.sub_add_eq]
          exact ceilDiv_sub hB' (by omega)
        · intro block hblock
          rcases List.mem_cons.mp hblock with rfl | hblock
          · exact hnext
          · exact hrest.noWrap block hblock
      · have hge := Nat.not_lt.mp (mt Table.lt_size_iff.mpr hlt)
        have hnone : outer.pages.length - blockStart.toNat = 0 := by omega
        rw [if_neg hlt]
        refine ⟨?_, ?_, by simp⟩
        · rw [hnone]
          rfl
        · rw [hnone, ceilDiv_zero]
          rfl

/-- Each block costs one read of every inner page. -/
theorem pageIOCount_foldl_scanBlock (outer inner : Table)
    (predicate : Row → Row → Bool) (blocks : List Block) (acc : Progress) :
    (blocks.foldl (scanBlock outer inner predicate) acc).pageIOCount =
      acc.pageIOCount + blocks.length * inner.pages.length := by
  induction blocks generalizing acc with
  | nil => simp
  | cons block blocks ih =>
      rw [List.foldl_cons, ih, scanBlock, pageIOCount_foldl_scanPage,
        List.length_cons]
      push_cast
      rw [Int.add_mul, Int.one_mul]
      omega

/-- **Block nested loop join, result and cost.**  For all tables, every
predicate and every block size of at least one page: the loop stops within one
iteration per outer page and a final test; the blocks it visits cut the page
indices of the outer table into consecutive ranges, and no start of a block
wraps on its way to the next; the joined rows are, up to order, the pairs of an
outer and an inner row that the predicate accepts; and the counter has grown by
`M + ⌈M / B⌉ · N`. -/
theorem blockNestedLoopJoin_exact (outer inner : Table)
    (predicate : Row → Row → Bool) {blockSizePages : UInt64}
    (hB : 1 ≤ blockSizePages) (pageIOCount : Int) {fuel : Nat}
    (hfuel : outer.pages.length < fuel) :
    let blocks := visitedBlocks outer blockSizePages fuel 0
    ∃ out, blockNestedLoopJoin fuel outer inner predicate blockSizePages
        pageIOCount = some out ∧
      out = blocks.foldl (scanBlock outer inner predicate)
        ⟨[], pageIOCount + outer.pages.length⟩ ∧
      blocks.flatMap Block.pages = List.range outer.pages.length ∧
      (∀ block ∈ blocks, (block.blockStart + blockSizePages).toNat =
        block.blockStart.toNat + blockSizePages.toNat) ∧
      out.result.Perm (predicateJoin predicate outer.rows inner.rows) ∧
      out.pageIOCount = pageIOCount + (outer.pages.length +
        ceilDiv outer.pages.length blockSizePages.toNat *
          inner.pages.length) := by
  intro blocks
  obtain ⟨out, hrun, hperm⟩ :=
    blockNestedLoopJoin_spec outer inner predicate hB pageIOCount
  have hout := blockLoop_eq_foldl outer inner predicate blockSizePages fuel 0
    _ out (hrun fuel hfuel)
  have hblocks := visitedBlocks_spec outer hB fuel 0 (Or.inl rfl)
    (Nat.lt_of_le_of_lt (Nat.sub_le _ _) hfuel)
  refine ⟨out, hrun fuel hfuel, hout, ?_, hblocks.noWrap, hperm, ?_⟩
  · rw [List.range_eq_range']
    exact hblocks.pages
  · have hlength : blocks.length =
        ceilDiv outer.pages.length blockSizePages.toNat := hblocks.length
    rw [hout, pageIOCount_foldl_scanBlock, hlength]
    push_cast
    omega

/-- Three pages in blocks of two, joined on equal keys: the last block is
short, and a key occurs twice on either side. -/
theorem blockNestedLoopJoin_exact_ragged :
    ∃ out, blockNestedLoopJoin 4
        ⟨[[⟨1, "a"⟩, ⟨2, "b"⟩], [], [⟨1, "c"⟩]], by decide⟩
        ⟨[[⟨1, "x"⟩], [⟨3, "y"⟩, ⟨1, "z"⟩]], by decide⟩
        (fun a b => a.key == b.key) 2 0 = some out ∧
      out.result.Perm
        [⟨⟨1, "a"⟩, ⟨1, "x"⟩⟩, ⟨⟨1, "a"⟩, ⟨1, "z"⟩⟩,
          ⟨⟨1, "c"⟩, ⟨1, "x"⟩⟩, ⟨⟨1, "c"⟩, ⟨1, "z"⟩⟩] ∧
      out.pageIOCount = 7 := by
  obtain ⟨out, hrun, -, -, -, hresult, hcost⟩ :=
    blockNestedLoopJoin_exact
      ⟨[[⟨1, "a"⟩, ⟨2, "b"⟩], [], [⟨1, "c"⟩]], by decide⟩
      ⟨[[⟨1, "x"⟩], [⟨3, "y"⟩, ⟨1, "z"⟩]], by decide⟩
      (fun a b => a.key == b.key) (show (1 : UInt64) ≤ 2 by decide) 0
      (show 3 < 4 by decide)
  exact ⟨out, hrun, hresult, hcost⟩

end GoPrep.Ports.NestedLoopJoin
