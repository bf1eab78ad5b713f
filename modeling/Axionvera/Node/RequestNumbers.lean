import Axionvera.Lib.WordMath
import Axionvera.Node.GrpcServer
import Mathlib.Algebra.Order.Floor.Div
import Mathlib.Data.List.AList
import Mathlib.Order.Interval.Finset.Nat

/-! # Arithmetic on numbers that clients send

`grpc/gateway_service.rs` counts the pages of a transaction history,
`grpc/p2p_service.rs` the blocks of a range to synchronize, and `gateway.rs` passes
the numbers of a query on to the first. None of the three looks at the numbers
before it computes with them. A panic is kept apart from a `Status`, which is an
answer to the client. -/
namespace Axionvera.Node.RequestNumbers
open Axionvera.Lib.Fallible Axionvera.Lib.MachineInt Axionvera.Lib.WordMath
open Axionvera.Node.AdminToken (Status)
open Axionvera.Node.GrpcServer (Timestamp)

/-! ## Pages of a history -/

structure TransactionHistoryRequest where
  limit : Option UInt64
  offset : Option UInt64
  deriving DecidableEq

structure PaginationInfo where
  currentPage : UInt64
  totalPages : UInt64
  pageSize : UInt64
  hasNext : Bool
  hasPrevious : Bool
  deriving DecidableEq

structure TransactionInfo where
  confirmationCount : UInt64
  feePaid : String
  metadata : AList fun _ : String => String

structure TransactionHistoryResponse where
  transactions : List TransactionInfo
  totalCount : UInt64
  hasMore : Bool
  pagination : Option PaginationInfo

def TransactionHistoryRequest.pageSize (req : TransactionHistoryRequest) : UInt64 :=
  req.limit.getD (UInt64.ofNat 10)

def TransactionHistoryRequest.firstRow (req : TransactionHistoryRequest) : UInt64 :=
  req.offset.getD (UInt64.ofNat 0)

def paginationOf (build : Build) (req : TransactionHistoryRequest) (totalCount : UInt64)
    (hasMore : Bool) : Except Panic PaginationInfo := do
  let page ← div req.firstRow req.pageSize
  let currentPage ← add build page (UInt64.ofNat 1)
  let padded ← add build totalCount req.pageSize
  let last ← sub build padded (UInt64.ofNat 1)
  let totalPages ← div last req.pageSize
  pure ⟨currentPage, totalPages, req.pageSize, hasMore, decide (UInt64.ofNat 1 < currentPage)⟩

/-- The fields that the gateway sets itself. -/
def TransactionInfo.processed (transaction : TransactionInfo) : TransactionInfo :=
  ⟨UInt64.ofNat 12, "21000", transaction.metadata.insert "gateway_processed" "true"⟩

/-- `answer` is what the network service returned. -/
def getTransactionHistory (build : Build) (req : TransactionHistoryRequest)
    (answer : Except Status TransactionHistoryResponse) :
    Except Panic (Except Status TransactionHistoryResponse) :=
  match answer with
  | .error status => .ok (.error status)
  | .ok response => do
    let pagination ← paginationOf build req response.totalCount response.hasMore
    pure (.ok { response with
      pagination := some pagination
      transactions := response.transactions.map .processed })

structure PaginationQuery where
  limit : Option UInt64
  offset : Option UInt64

/-- The handler of `/v1/transaction/history`: whatever status comes back is answered with 500. -/
def getTransactionHistoryRest (build : Build) (query : PaginationQuery)
    (answer : Except Status TransactionHistoryResponse) :
    Except Panic (Except Nat TransactionHistoryResponse) := do
  let reply ← getTransactionHistory build ⟨query.limit, query.offset⟩ answer
  pure (reply.mapError fun _ => 500)

/-! ## Blocks of a range -/

structure SyncRequest where
  startBlock : UInt64
  endBlock : UInt64
  deriving DecidableEq

structure BlockData where
  blockNumber : UInt64
  timestamp : Timestamp
  deriving DecidableEq

structure SyncResponse where
  success : Bool
  blocks : List BlockData
  totalBlocks : UInt64
  deriving DecidableEq

/-- `now` is the time since the epoch, or by how much the clock is before it. -/
def syncChain (build : Build) (req : SyncRequest) (now : Except String Timestamp) :
    Except Panic (Except Status SyncResponse) :=
  match now with
  | .error e => .ok (.error ⟨.internal, "Timestamp error: " ++ e⟩)
  | .ok timestamp => do
    let blocks := [⟨req.startBlock, timestamp⟩]
    let span ← sub build req.endBlock req.startBlock
    let totalBlocks ← add build span (UInt64.ofNat 1)
    pure (.ok ⟨true, blocks, totalBlocks⟩)

/-! ## What the builds agree on -/

theorem safe_paginationOf (req : TransactionHistoryRequest) (totalCount : UInt64)
    (hasMore : Bool) : Safe fun build => paginationOf build req totalCount hasMore := by
  refine (safe_const _).bind ?_
  intro page
  refine (safe_add _ _).bind ?_
  intro currentPage
  refine (safe_add _ _).bind ?_
  intro padded
  refine (safe_sub _ _).bind ?_
  intro last
  exact safe_const _

theorem safe_getTransactionHistory (req : TransactionHistoryRequest)
    (response : TransactionHistoryResponse) :
    Safe fun build => getTransactionHistory build req (.ok response) :=
  (safe_paginationOf _ _ _).bind fun _ => safe_const _

theorem safe_syncChain (req : SyncRequest) (now : Timestamp) :
    Safe fun build => syncChain build req (.ok now) := by
  refine (safe_sub _ _).bind ?_
  intro span
  exact (safe_add _ _).bind fun _ => safe_const _

/-! ## When the numbers come out right -/

/-- The page counts that a history of `totalCount` rows has from `req.firstRow` on. -/
def Paginates (req : TransactionHistoryRequest) (totalCount : UInt64) (p : PaginationInfo) : Prop :=
  p.currentPage.toNat = req.firstRow.toNat / req.pageSize.toNat + 1 ∧
    p.totalPages.toNat = totalCount.toNat ⌈/⌉ req.pageSize.toNat

/-- A page has a size, the last page of all has a number, and the rows together with one
more page can be counted. -/
def PagesFit (req : TransactionHistoryRequest) (totalCount : UInt64) : Prop :=
  req.limit ≠ some (UInt64.ofNat 0) ∧
    ¬ (req.limit = some (UInt64.ofNat 1) ∧ req.offset = some (UInt64.ofNat 18446744073709551615)) ∧
    totalCount.toNat + req.pageSize.toNat < u64Size

/-- With checks, the pages come out iff no operation overflows, and then they are right. -/
theorem paginationOf_ok_iff {req : TransactionHistoryRequest} {totalCount : UInt64}
    (hasMore : Bool) :
    (∃ p, paginationOf .checked req totalCount hasMore = .ok p ∧ Paginates req totalCount p) ↔
      req.pageSize.toNat ≠ 0 ∧ req.firstRow.toNat / req.pageSize.toNat + 1 < u64Size ∧
        totalCount.toNat + req.pageSize.toNat < u64Size := by
  simp only [paginationOf, bind_eq_ok, div_eq_ok, add_eq_ok, sub_eq_ok, pure_eq_ok]
  constructor
  · rintro ⟨p, ⟨page, ⟨hsize, hpage⟩, currentPage, ⟨hcurrent, -⟩, padded, ⟨hpadded, -⟩, -⟩, -⟩
    rw [hpage] at hcurrent
    exact ⟨hsize, hcurrent, hpadded⟩
  · rintro ⟨hsize, hcurrent, hpadded⟩
    obtain ⟨page, hpage⟩ :=
      exists_toNat_eq (n := req.firstRow.toNat / req.pageSize.toNat) (by omega)
    obtain ⟨currentPage, hcurrentPage⟩ := exists_toNat_eq hcurrent
    obtain ⟨padded, hpaddedValue⟩ := exists_toNat_eq hpadded
    have hpositive : 1 ≤ padded.toNat := by omega
    obtain ⟨last, hlast⟩ := exists_toNat_eq (n := padded.toNat - 1) (by omega)
    have hquotient : last.toNat / req.pageSize.toNat < u64Size :=
      (Nat.div_le_self _ _).trans_lt (by omega)
    obtain ⟨totalPages, htotalPages⟩ := exists_toNat_eq hquotient
    have hceil : totalPages.toNat = totalCount.toNat ⌈/⌉ req.pageSize.toNat := by
      rw [Nat.ceilDiv_eq_add_pred_div, htotalPages, hlast, hpaddedValue]
    rw [← hpage] at hcurrent hcurrentPage
    refine ⟨_, ⟨page, ⟨hsize, hpage⟩, currentPage, ⟨hcurrent, hcurrentPage⟩, padded,
      ⟨hpadded, hpaddedValue⟩, last, ⟨hpositive, hlast⟩, totalPages, ⟨hsize, htotalPages⟩, rfl⟩,
      ?_, hceil⟩
    rw [← hpage]
    exact hcurrentPage

/-- The page number overflows on the last row of all, at one row a page. -/
theorem currentPage_lt_iff {size row : UInt64} (hsize : size.toNat ≠ 0) :
    row.toNat / size.toNat + 1 < u64Size ↔
      ¬ (size = UInt64.ofNat 1 ∧ row = UInt64.ofNat 18446744073709551615) := by
  have hrow : row.toNat < u64Size := row.toNat_lt
  have hle : row.toNat / size.toNat ≤ row.toNat := Nat.div_le_self _ _
  rw [← UInt64.toNat_inj, ← UInt64.toNat_inj]
  constructor
  · rintro hfits ⟨hone, hmax⟩
    rw [hone, hmax] at hfits
    exact absurd hfits (by decide)
  · intro hnot
    rcases Nat.lt_or_ge 1 size.toNat with hlarge | hsmall
    · rcases Nat.eq_zero_or_pos row.toNat with hzero | hpos
      · rw [hzero, Nat.zero_div]
        decide
      · have hlt : row.toNat / size.toNat < row.toNat := Nat.div_lt_self hpos hlarge
        omega
    · have hone : size.toNat = 1 := by omega
      have hmax : row.toNat ≠ 18446744073709551615 := fun hmax => hnot ⟨hone, hmax⟩
      rw [hone, Nat.div_one]
      simp only [u64Size] at hrow ⊢
      omega

theorem pagesFit_iff {req : TransactionHistoryRequest} {totalCount : UInt64} :
    PagesFit req totalCount ↔
      req.pageSize.toNat ≠ 0 ∧ req.firstRow.toNat / req.pageSize.toNat + 1 < u64Size ∧
        totalCount.toNat + req.pageSize.toNat < u64Size := by
  have hsize : req.limit ≠ some (UInt64.ofNat 0) ↔ req.pageSize.toNat ≠ 0 := by
    cases hlimit : req.limit with
    | none => simp [TransactionHistoryRequest.pageSize, hlimit]
    | some limit => simp [TransactionHistoryRequest.pageSize, hlimit, ← UInt64.toNat_inj]
  -- an absent limit is ten, an absent offset zero
  have hlimitOne : req.limit = some (UInt64.ofNat 1) ↔ req.pageSize = UInt64.ofNat 1 := by
    cases hlimit : req.limit with
    | none => simp [TransactionHistoryRequest.pageSize, hlimit]
    | some limit => simp [TransactionHistoryRequest.pageSize, hlimit]
  have hoffsetMax : req.offset = some (UInt64.ofNat 18446744073709551615) ↔
      req.firstRow = UInt64.ofNat 18446744073709551615 := by
    cases hoffset : req.offset with
    | none => simp [TransactionHistoryRequest.firstRow, hoffset]
    | some offset => simp [TransactionHistoryRequest.firstRow, hoffset]
  rw [PagesFit, hsize, hlimitOne, hoffsetMax]
  refine and_congr_right ?_
  intro hpos
  rw [currentPage_lt_iff hpos]

/-- In either build the reply carries the page counts. -/
def HistoryCounted (req : TransactionHistoryRequest) (response : TransactionHistoryResponse) :
    Prop :=
  ∃ reply p, reply.pagination = some p ∧ Paginates req response.totalCount p ∧
    ∀ build, getTransactionHistory build req (.ok response) = .ok (.ok reply)

theorem historyCounted_iff (req : TransactionHistoryRequest)
    (response : TransactionHistoryResponse) :
    HistoryCounted req response ↔ PagesFit req response.totalCount := by
  rw [pagesFit_iff, ← paginationOf_ok_iff response.hasMore]
  constructor
  · rintro ⟨reply, p, hreply, hright, hall⟩
    obtain ⟨p', hp', hdone⟩ := bind_eq_ok.mp (hall .checked)
    cases pure_eq_ok.mp hdone
    cases hreply
    exact ⟨p, hp', hright⟩
  · rintro ⟨p, hp, hright⟩
    refine ⟨{ response with
      pagination := some p
      transactions := response.transactions.map .processed }, p, rfl, hright,
      safe_getTransactionHistory req response _ ?_⟩
    exact bind_eq_ok.mpr ⟨p, hp, rfl⟩

/-- In either build the reply carries the number of blocks of the range. -/
def BlocksCounted (req : SyncRequest) (now : Timestamp) : Prop :=
  ∃ reply : SyncResponse,
    reply.totalBlocks.toNat = (Finset.Icc req.startBlock.toNat req.endBlock.toNat).card ∧
    ∀ build, syncChain build req (.ok now) = .ok (.ok reply)

theorem blocksCounted_iff (req : SyncRequest) (now : Timestamp) : BlocksCounted req now ↔
    req.startBlock ≤ req.endBlock ∧ ¬ (req.startBlock = UInt64.ofNat 0 ∧
      req.endBlock = UInt64.ofNat 18446744073709551615) := by
  have hend : req.endBlock.toNat < u64Size := req.endBlock.toNat_lt
  rw [UInt64.le_iff_toNat_le, ← UInt64.toNat_inj, ← UInt64.toNat_inj]
  constructor
  · rintro ⟨reply, -, hall⟩
    obtain ⟨span, hspan, hrest⟩ := bind_eq_ok.mp (hall .checked)
    obtain ⟨totalBlocks, htotal, -⟩ := bind_eq_ok.mp hrest
    obtain ⟨hle, hspan⟩ := sub_eq_ok.mp hspan
    obtain ⟨hfits, -⟩ := add_eq_ok.mp htotal
    refine ⟨hle, ?_⟩
    rintro ⟨hzero, hmax⟩
    rw [hspan, hzero, hmax] at hfits
    exact absurd hfits (by decide)
  · rintro ⟨hle, hnot⟩
    have hfits : req.endBlock.toNat - req.startBlock.toNat + 1 < u64Size := by
      simp only [u64Size, UInt64.reduceOfNat, UInt64.reduceToNat] at hend hnot ⊢
      omega
    obtain ⟨span, hspan⟩ :=
      exists_toNat_eq (n := req.endBlock.toNat - req.startBlock.toNat) (by omega)
    obtain ⟨totalBlocks, htotal⟩ := exists_toNat_eq hfits
    refine ⟨⟨true, [⟨req.startBlock, now⟩], totalBlocks⟩, ?_, safe_syncChain req now _ ?_⟩
    · rw [Nat.card_Icc]
      show totalBlocks.toNat = _
      omega
    · refine bind_eq_ok.mpr ⟨span, sub_eq_ok.mpr ⟨hle, hspan⟩, ?_⟩
      refine bind_eq_ok.mpr ⟨totalBlocks, add_eq_ok.mpr ?_, rfl⟩
      rw [hspan]
      exact ⟨hfits, htotal⟩

/-- The two handlers count without a panic, and right, on just these requests. -/
theorem counts_right_iff (req : TransactionHistoryRequest) (response : TransactionHistoryResponse)
    (sync : SyncRequest) (now : Timestamp) :
    (HistoryCounted req response ↔ PagesFit req response.totalCount) ∧
      (BlocksCounted sync now ↔ sync.startBlock ≤ sync.endBlock ∧
        ¬ (sync.startBlock = UInt64.ofNat 0 ∧
          sync.endBlock = UInt64.ofNat 18446744073709551615)) :=
  ⟨historyCounted_iff req response, blocksCounted_iff sync now⟩

/-- `?limit=0` panics in either build, and so does the empty range from 5 to 3 in the one
with checks; the other counts nearly `2 ^ 64` blocks in it. -/
theorem counts_on_bad_numbers :
    (∀ build, getTransactionHistoryRest build ⟨some (UInt64.ofNat 0), none⟩
        (.ok ⟨[], UInt64.ofNat 1, false, none⟩) = .error .divideByZero) ∧
      syncChain .checked ⟨UInt64.ofNat 5, UInt64.ofNat 3⟩ (.ok ⟨0, 0⟩) = .error .overflow ∧
      syncChain .wrapping ⟨UInt64.ofNat 5, UInt64.ofNat 3⟩ (.ok ⟨0, 0⟩) =
        .ok (.ok ⟨true, [⟨UInt64.ofNat 5, ⟨0, 0⟩⟩], UInt64.ofNat 18446744073709551615⟩) := by
  refine ⟨?_, rfl, rfl⟩
  intro build
  cases build <;> rfl

end Axionvera.Node.RequestNumbers
