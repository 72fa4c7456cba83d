import Mathlib.Data.List.Sort

/-!
# The pages of the blocks

`grpc/controller.rs`: a page of blocks starts at the id given by its offset from the number of
the blocks. The bound is inclusive, so that the block before that of the offset starts the page:
after the first page, every page repeats the last block of the one before it. The pages list the
blocks exactly if there is only one (`pages_listsAll_iff`).
-/

namespace Rollup

/-- A row of the table of the blocks, without the columns that no response contains; `τ` is the
    type of the time stamps. -/
structure L2BlockRow (τ : Type) where
  blockId : ℤ
  newRoot : String
  createdTime : τ

/-- A page of blocks: how many to skip, and how many to list. -/
structure L2BlocksQueryRequest where
  offset : ℤ
  limit : ℤ

/-- What a page says of a block. -/
structure BlockSummary where
  blockHeight : ℤ
  merkleRoot : String
  blockTime : ℤ

/-- A page of blocks, with the number of all of them. -/
structure L2BlocksQueryResponse where
  total : ℤ
  blocks : List BlockSummary

section Paging

variable {τ : Type}

/-- `order by block_id desc` -/
def orderByBlockIdDesc (rows : List (L2BlockRow τ)) : List (L2BlockRow τ) :=
  rows.insertionSort fun b c => c.blockId ≤ b.blockId

/-- `get_l2_blocks`: the number of the blocks is found from the last one. -/
def getL2Blocks (table : List (L2BlockRow τ)) (request : L2BlocksQueryRequest) :
    ℤ × List (L2BlockRow τ) :=
  match (orderByBlockIdDesc table).head? with
  | none => (0, [])
  | some last =>
    let total := last.blockId + 1
    let limit := if 0 < request.limit then request.limit else 10
    let limit := min 100 limit
    (total, (orderByBlockIdDesc
      (table.filter fun b => b.blockId ≤ total - request.offset)).take limit.toNat)

/-- `Controller::l2_blocks_query`, the time stamps being converted to milliseconds. -/
def l2BlocksQuery (asMilliseconds : τ → ℤ) (table : List (L2BlockRow τ))
    (request : L2BlocksQueryRequest) : L2BlocksQueryResponse :=
  let (total, blocks) := getL2Blocks table request
  ⟨total, blocks.map fun b => ⟨b.blockId, b.newRoot, asMilliseconds b.createdTime⟩⟩

/-! ## What the pages should be -/

/-- The blocks of the table are numbered from `0`. -/
def Numbered (table : List (L2BlockRow τ)) (total : ℕ) : Prop :=
  (table.map L2BlockRow.blockId).Perm ((List.range total).map Nat.cast)

/-- The blocks of the pages of the offsets `0`, `limit`, `2 * limit` and so on, up to `last`. -/
def pages (table : List (L2BlockRow τ)) (limit last : ℕ) : List (L2BlockRow τ) :=
  (List.range (last / limit + 1)).flatMap fun i : ℕ =>
    (getL2Blocks table ⟨(i * limit : ℕ), limit⟩).2

/-- Every block of the table, exactly once, in the order of decreasing ids. -/
def ListsAll (table blocks : List (L2BlockRow τ)) : Prop :=
  blocks.Perm table ∧ blocks.Pairwise fun b c => c.blockId < b.blockId

/-! ## The rows in order -/

theorem perm_orderByBlockIdDesc (rows : List (L2BlockRow τ)) :
    (orderByBlockIdDesc rows).Perm rows :=
  List.perm_insertionSort _ rows

theorem pairwise_orderByBlockIdDesc (rows : List (L2BlockRow τ)) :
    (orderByBlockIdDesc rows).Pairwise fun b c => c.blockId ≤ b.blockId := by
  have : IsTrans (L2BlockRow τ) fun b c => c.blockId ≤ b.blockId := ⟨fun _ _ _ h h' => h'.trans h⟩
  have : Std.Total fun b c : L2BlockRow τ => c.blockId ≤ b.blockId :=
    ⟨fun b c => le_total c.blockId b.blockId⟩
  exact List.pairwise_insertionSort _ rows

/-- The ids below `k` that are at least `k - limit`. -/
theorem mem_take_reverse_range {k limit x : ℕ} :
    x ∈ (List.range k).reverse.take limit ↔ x < k ∧ k ≤ x + limit := by
  rw [List.take_reverse, List.mem_reverse, List.length_range, List.range_eq_range',
    List.drop_range', List.mem_range'_1]
  omega

namespace Numbered

variable {table : List (L2BlockRow τ)} {total : ℕ} (h : Numbered table total)
include h

theorem length_table : table.length = total := by
  have hlength := List.Perm.length_eq h
  rwa [List.length_map, List.length_map, List.length_range] at hlength

/-- The ids, in decreasing order. -/
theorem map_orderBy :
    (orderByBlockIdDesc table).map L2BlockRow.blockId = (List.range total).reverse.map Nat.cast := by
  have hrows : ((orderByBlockIdDesc table).map L2BlockRow.blockId).Pairwise (· ≥ ·) :=
    List.pairwise_map.2 (pairwise_orderByBlockIdDesc table)
  have hids : ((List.range total).reverse.map (Nat.cast : ℕ → ℤ)).Pairwise (· ≥ ·) := by
    refine List.pairwise_map.2 (List.pairwise_reverse.2 (List.pairwise_lt_range.imp fun hlt => ?_))
    exact_mod_cast hlt.le
  refine List.Perm.eq_of_pairwise' hrows hids ?_
  rw [List.map_reverse]
  exact (((perm_orderByBlockIdDesc table).map _).trans h).trans (List.reverse_perm _).symm

/-- The rows up to an id are the first ones. -/
theorem filter {bound : ℤ} {k : ℕ} (hk : ∀ x < total, (x : ℤ) ≤ bound ↔ x < k) (hle : k ≤ total) :
    Numbered (table.filter fun b => b.blockId ≤ bound) k := by
  have hfilter := List.Perm.filter (fun x : ℤ => decide (x ≤ bound)) h
  rw [List.filter_map, List.filter_map] at hfilter
  refine hfilter.trans (List.Perm.map _ ?_)
  refine (List.perm_ext_iff_of_nodup (List.nodup_range.filter _) List.nodup_range).2 fun x => ?_
  simp only [List.mem_filter, List.mem_range, Function.comp_apply, decide_eq_true_eq]
  constructor
  · rintro ⟨hx, hbound⟩
    exact (hk x hx).1 hbound
  · exact fun hx => ⟨hx.trans_le hle, (hk x (hx.trans_le hle)).2 hx⟩

/-- The number that is reported is that of the blocks. -/
theorem getL2Blocks_eq (request : L2BlocksQueryRequest) : getL2Blocks table request =
    ((total : ℤ),
      (orderByBlockIdDesc (table.filter fun b => b.blockId ≤ total - request.offset)).take
        (min 100 (if 0 < request.limit then request.limit else 10)).toNat) := by
  have hids := h.map_orderBy
  rw [getL2Blocks]
  cases total with
  | zero =>
    have hnil : table = [] := List.length_eq_zero_iff.1 h.length_table
    subst hnil
    exact congrArg (Prod.mk _) (List.take_nil).symm
  | succ n =>
    rw [List.range_succ, List.reverse_append, List.reverse_singleton, List.singleton_append,
      List.map_cons] at hids
    obtain ⟨last, rest, hrows, hlast, -⟩ := List.map_eq_cons_iff.1 hids
    rw [hrows, List.head?_cons]
    have htotal : last.blockId + 1 = (n + 1 : ℕ) := by omega
    dsimp only
    rw [htotal]

/-- The page of an offset starts with the block before that of the offset, if there is one. -/
theorem map_page {offset limit : ℕ} (h1 : 1 ≤ limit) (h100 : limit ≤ 100) (hle : offset ≤ total) :
    (getL2Blocks table ⟨offset, limit⟩).2.map L2BlockRow.blockId =
      ((List.range (min total (total - offset + 1))).reverse.take limit).map Nat.cast := by
  have hlimit : (min 100 (if (0 : ℤ) < limit then (limit : ℤ) else 10)).toNat = limit := by
    rw [if_pos (by omega)]
    omega
  have hfilter : Numbered (table.filter fun b => b.blockId ≤ total - offset)
      (min total (total - offset + 1)) := h.filter (fun x hx => by omega) (min_le_left _ _)
  rw [h.getL2Blocks_eq]
  dsimp only
  rw [hlimit, List.map_take, hfilter.map_orderBy, List.map_take]

theorem exists_mem_page {offset limit x : ℕ} (h1 : 1 ≤ limit) (h100 : limit ≤ 100)
    (hle : offset ≤ total) (hlt : x < min total (total - offset + 1))
    (hlimit : min total (total - offset + 1) ≤ x + limit) :
    ∃ b ∈ (getL2Blocks table ⟨offset, limit⟩).2, b.blockId = x := by
  have hmem : (x : ℤ) ∈ (getL2Blocks table ⟨offset, limit⟩).2.map L2BlockRow.blockId := by
    rw [h.map_page h1 h100 hle]
    exact List.mem_map_of_mem (mem_take_reverse_range.2 ⟨hlt, hlimit⟩)
  exact List.mem_map.1 hmem

/-- A single page lists the blocks. -/
theorem listsAll_of_lt {limit last : ℕ} (h1 : 1 ≤ limit) (h100 : limit ≤ 100)
    (hlast : last < limit) (hle : total ≤ last + 1) : ListsAll table (pages table limit last) := by
  have hone : pages table limit last = (getL2Blocks table ⟨0, limit⟩).2 := by
    rw [pages, Nat.div_eq_of_lt hlast]
    simp
  -- No row is beyond the last id.
  have hall : (table.filter fun b => b.blockId ≤ (total : ℤ) - 0) = table := by
    refine List.filter_eq_self.2 fun b hb => ?_
    obtain ⟨x, hx, hid⟩ := List.mem_map.1 ((List.Perm.mem_iff h).1 (List.mem_map_of_mem hb))
    have hlt := List.mem_range.1 hx
    exact decide_eq_true (by omega)
  have hpage : (getL2Blocks table ⟨0, limit⟩).2 = orderByBlockIdDesc table := by
    rw [h.getL2Blocks_eq]
    dsimp only
    rw [hall]
    refine List.take_of_length_le ?_
    rw [(perm_orderByBlockIdDesc table).length_eq, h.length_table, if_pos (by omega)]
    omega
  rw [hone, hpage]
  refine ⟨perm_orderByBlockIdDesc table, ?_⟩
  -- The ids decrease, and each row has one of its own.
  have hids : ((orderByBlockIdDesc table).map L2BlockRow.blockId).Pairwise (· > ·) := by
    rw [h.map_orderBy]
    refine List.pairwise_map.2 (List.pairwise_reverse.2 (List.pairwise_lt_range.imp fun hlt => ?_))
    exact_mod_cast hlt
  exact List.pairwise_map.1 hids

/-- The last block of the first page is the first one of the second page. -/
theorem not_listsAll_of_le {limit last : ℕ} (h1 : 1 ≤ limit) (h100 : limit ≤ 100)
    (hlast : limit ≤ last) (hle : last ≤ total) : ¬ListsAll table (pages table limit last) := by
  rintro ⟨-, hpairwise⟩
  obtain ⟨-, hpages⟩ := List.pairwise_flatMap.1 hpairwise
  have htwo : 1 < (List.range (last / limit + 1)).length := by
    rw [List.length_range]
    exact Nat.lt_succ_of_le ((Nat.le_div_iff_mul_le h1).2 (by omega))
  have hlt := List.pairwise_iff_getElem.1 hpages 0 1 (by omega) htwo zero_lt_one
  simp only [List.getElem_range, Nat.zero_mul, Nat.one_mul] at hlt
  obtain ⟨b, hb, hbid⟩ := h.exists_mem_page (x := total - limit) h1 h100 (Nat.zero_le total)
    (by omega) (by omega)
  obtain ⟨c, hc, hcid⟩ := h.exists_mem_page (x := total - limit) h1 h100 (hlast.trans hle)
    (by omega) (by omega)
  have hne := hlt b hb c hc
  omega

end Numbered

/-- The pages list every block exactly once, in the order of decreasing ids, if and only if one
    page does: that is, if the blocks fit in it, and there is no page for the offset `total`. -/
theorem pages_listsAll_iff (asMilliseconds : τ → ℤ) {table : List (L2BlockRow τ)} {total : ℕ}
    (h : Numbered table total) {limit : ℕ} (h1 : 1 ≤ limit) (h100 : limit ≤ 100) :
    (l2BlocksQuery asMilliseconds table ⟨0, limit⟩).total = total ∧
      (ListsAll table (pages table limit (total - 1)) ↔ total ≤ limit) ∧
      (ListsAll table (pages table limit total) ↔ total < limit) := by
  have hiff : ∀ last, last ≤ total → total ≤ last + 1 →
      (ListsAll table (pages table limit last) ↔ last < limit) := by
    intro last hle hge
    constructor
    · intro hlists
      by_contra hlast
      exact h.not_listsAll_of_le h1 h100 (not_lt.1 hlast) hle hlists
    · exact fun hlast => h.listsAll_of_lt h1 h100 hlast hge
  refine ⟨congrArg Prod.fst (h.getL2Blocks_eq _), ?_, hiff total le_rfl (Nat.le_succ total)⟩
  rw [hiff (total - 1) (Nat.sub_le total 1) (by omega)]
  omega

end Paging

/-- Three blocks. -/
def threeBlocks : List (L2BlockRow ℤ) := [⟨0, "root0", 10⟩, ⟨1, "root1", 20⟩, ⟨2, "root2", 30⟩]

theorem numbered_threeBlocks : Numbered threeBlocks 3 := List.Perm.refl _

/-- Pages of four blocks: the only one is that of the offset `0`. -/
theorem pages_listsAll_iff_threeBlocks : ListsAll threeBlocks (pages threeBlocks 4 3) :=
  (pages_listsAll_iff id numbered_threeBlocks (by decide) (by decide)).2.2.2 (by decide)

/-- Pages of two blocks: the block `1` is in both of them. -/
theorem not_listsAll_threeBlocks :
    (l2BlocksQuery id threeBlocks ⟨0, 2⟩).total = 3 ∧
      (pages threeBlocks 2 2).map L2BlockRow.blockId = [2, 1, 1, 0] ∧
      ¬ListsAll threeBlocks (pages threeBlocks 2 2) ∧
      ¬ListsAll threeBlocks (pages threeBlocks 2 3) := by
  refine ⟨by decide +kernel, by decide +kernel, fun h => ?_, fun h => ?_⟩
  · exact absurd h.1.length_eq (by decide +kernel)
  · exact absurd h.1.length_eq (by decide +kernel)

end Rollup
