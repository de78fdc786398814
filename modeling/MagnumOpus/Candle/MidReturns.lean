import MagnumOpus.Lib.SeriesBlocks
import MagnumOpus.Lib.SeriesMoments
import MagnumOpus.Candle.BarTrades

/-! # The moments of the mid-price returns

The accumulator keeps the count, the mean and two central sums of the log returns of the mid price,
and updates them by each new return. They are those of all returns of the bar (`IsBatch`): of the
returns between mid prices that follow each other, the first after the last one of the bar before.
-/

namespace MagnumOpus.Candle

open SeriesBlocks SeriesMoments

/-- The moments of the returns, taken together. -/
structure IsBatch (rs : List ℚ) (m : Moments) : Prop where
  count : m.nMidReturns = rs.length
  mean : m.midReturnMean = mean rs
  m2 : m.midReturnM2 = centralSum 2 rs
  m3 : m.midReturnM3 = centralSum 3 rs

theorem isBatch_nil (lastMidPrice : ℚ) (hasLastMid : Bool) :
    IsBatch [] { lastMidPrice, hasLastMid } where
  count := rfl
  mean := by simp [SeriesMoments.mean]
  m2 := rfl
  m3 := rfl

theorem IsBatch.addReturn {rs : List ℚ} {m : Moments} (h : IsBatch rs m) (r : ℚ) :
    IsBatch (rs ++ [r]) (Accumulator.addReturn m r) := by
  have hcount : ((m.nMidReturns + 1 : ℕ) : ℚ) = rs.length + 1 := by
    rw [h.count, Nat.cast_add, Nat.cast_one]
  unfold Accumulator.addReturn
  constructor
  case count =>
    show m.nMidReturns + 1 = (rs ++ [r]).length
    rw [h.count, List.length_append, List.length_singleton]
  case mean =>
    rw [mean_append, ← h.mean, ← hcount]
  case m2 =>
    rw [centralSum_two_append, ← h.mean, ← h.m2, ← hcount, ← h.count]
  case m3 =>
    rw [centralSum_three_append, ← h.mean, ← h.m2, ← h.m3, ← hcount, ← h.count]

theorem isBatch_foldl (rs : List ℚ) {m : Moments} (h : IsBatch [] m) :
    IsBatch rs (rs.foldl Accumulator.addReturn m) := by
  induction rs using List.reverseRecOn with
  | nil => exact h
  | append_singleton rs r ih =>
      rw [List.foldl_append, List.foldl_cons, List.foldl_nil]
      exact ih.addReturn r

/-! ### Mid prices -/

section Mid

variable (N : Numerics)

/-- The return between two mid prices that are positive. -/
def returnOf (p : ℚ × ℚ) : Option ℚ := if 0 < p.1 ∧ 0 < p.2 then some (N.log (p.2 / p.1)) else none

/-- The returns between mid prices that follow each other. -/
def returnsOf (mids : List ℚ) : List ℚ := (adjacent mids).filterMap (returnOf N)

theorem returnsOf_append (mids : List ℚ) (mid : ℚ) :
    returnsOf N (mids ++ [mid]) =
      returnsOf N mids ++ (mids.getLast?.bind fun last => returnOf N (last, mid)).toList := by
  unfold returnsOf
  rw [adjacent_append, List.filterMap_append]
  cases mids.getLast? with
  | none => rfl
  | some last =>
      rw [Option.map_some, Option.bind_some, Option.toList_some, List.filterMap_cons]
      cases returnOf N (last, mid) with
      | none => rfl
      | some r => rfl

/-- The mid price that an accumulator has seen last. -/
def Moments.last (m : Moments) : Option ℚ :=
  if m.hasLastMid then some m.lastMidPrice else none

/-- The moments after some mid prices. -/
structure Follows (mids : List ℚ) (m : Moments) : Prop where
  batch : IsBatch (returnsOf N mids) m
  last : m.last = mids.getLast?

variable {N}

theorem Follows.applyMid {mids : List ℚ} {m : Moments} (h : Follows N mids m) (mid : ℚ) :
    Follows N (mids ++ [mid]) (Accumulator.applyMid N m mid) := by
  have hlast : m.last.bind (fun last => returnOf N (last, mid)) =
      if m.hasLastMid ∧ 0 < m.lastMidPrice ∧ 0 < mid then some (N.log (mid / m.lastMidPrice))
      else none := by
    unfold Moments.last returnOf
    cases m.hasLastMid with
    | false => simp
    | true => simp
  constructor
  case batch =>
    rw [returnsOf_append, ← h.last, hlast]
    unfold Accumulator.applyMid
    by_cases hfed : m.hasLastMid ∧ 0 < m.lastMidPrice ∧ 0 < mid
    · have hadd := h.batch.addReturn (N.log (mid / m.lastMidPrice))
      rw [if_pos hfed, if_pos hfed, Option.toList_some]
      exact ⟨hadd.count, hadd.mean, hadd.m2, hadd.m3⟩
    · rw [if_neg hfed, if_neg hfed, Option.toList_none, List.append_nil]
      exact ⟨h.batch.count, h.batch.mean, h.batch.m2, h.batch.m3⟩
  case last =>
    rw [List.getLast?_concat]
    rfl

theorem Follows.foldl {mids : List ℚ} {m : Moments} (h : Follows N mids m) (next : List ℚ) :
    Follows N (mids ++ next) (next.foldl (Accumulator.applyMid N) m) := by
  induction next using List.reverseRecOn with
  | nil => rwa [List.append_nil]
  | append_singleton next mid ih =>
      rw [List.foldl_append, List.foldl_cons, List.foldl_nil, ← List.append_assoc]
      exact ih.applyMid mid

end Mid

/-! ### The bar -/

namespace FullAccumulator

variable (N : Numerics)

theorem moments_applyCalls (cs : List ApplyCall) (a : FullAccumulator) :
    (a.applyCalls N cs).moments =
      (cs.filterMap (ApplyCall.mid N)).foldl (Accumulator.applyMid N) a.moments := by
  induction cs generalizing a with
  | nil => rfl
  | cons c cs ih =>
      have hcall : (a.applyCall N c).moments =
          (c.mid N).toList.foldl (Accumulator.applyMid N) a.moments := by
        unfold applyCall FullAccumulator.apply BarAccumulator.apply Accumulator.apply ApplyCall.mid
        cases Accumulator.parseQuote N c.currQuote with
        | none => rfl
        | some q => rfl
      have hcs : (a.applyCalls N (c :: cs)).moments =
          (cs.filterMap (ApplyCall.mid N)).foldl (Accumulator.applyMid N)
            (a.applyCall N c).moments := ih (a.applyCall N c)
      rw [hcs, hcall, List.filterMap_cons]
      cases c.mid N with
      | none => rfl
      | some mid => rfl

/-- The returns of a bar: the mid price carried over from the bar before comes first. -/
def midReturns (a : FullAccumulator) (cs : List ApplyCall) : List ℚ :=
  returnsOf N (a.moments.last.toList ++ cs.filterMap (ApplyCall.mid N))

end FullAccumulator

/-- **The online moments are the batch moments: of any returns fed one after the other, and of the
returns that a bar feeds.** -/
theorem online_eq_batch (N : Numerics) (a : FullAccumulator) (rs : List ℚ) (cs : List ApplyCall) :
    IsBatch rs (rs.foldl Accumulator.addReturn a.barReset.moments) ∧
    IsBatch (a.midReturns N cs) (a.barReset.applyCalls N cs).moments ∧
    0 ≤ (rs.foldl Accumulator.addReturn a.barReset.moments).midReturnM2 ∧
    0 ≤ (a.barReset.applyCalls N cs).moments.midReturnM2 := by
  have hreset : IsBatch [] a.barReset.moments := isBatch_nil _ _
  have hfollows : Follows N a.moments.last.toList a.barReset.moments := by
    have hlast : a.barReset.moments.last = a.moments.last := rfl
    constructor
    case batch =>
      cases a.moments.last with
      | none => exact hreset
      | some last => exact hreset
    case last =>
      rw [hlast]
      cases a.moments.last with
      | none => rfl
      | some last => rfl
  have hfed := isBatch_foldl rs hreset
  have hbar : IsBatch (a.midReturns N cs) (a.barReset.applyCalls N cs).moments := by
    rw [FullAccumulator.moments_applyCalls]
    exact (hfollows.foldl _).batch
  refine ⟨hfed, hbar, ?_, ?_⟩
  · rw [hfed.m2]
    exact centralSum_two_nonneg rs
  · rw [hbar.m2]
    exact centralSum_two_nonneg _

end MagnumOpus.Candle
