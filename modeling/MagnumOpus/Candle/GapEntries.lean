import MagnumOpus.Candle.Consumer

/-! # Gap entries

A gap entry goes through four calls to Redis before the consumer applies it: `XACK` takes it off
the entries that are pending in the group, `ZSCORE` asks whether its dedup key is recorded, `ZADD`
records the key and `ZREMRANGEBYRANK` trims the set.  A call that returns an error may have been
done all the same.

`handleGapEntry` is `handleMessage` on such an entry, with the entries that are pending beside the
consumer (`handleGapEntry_eq_handleMessage`).  `safeOnError_iff` says when an error that it returns
leaves the gap applied or still to be applied. -/

namespace MagnumOpus.Candle

/-- How a call to Redis ends. -/
inductive CallEnd where
  | ok
  /-- An error, and nothing is done. -/
  | failed
  /-- An error, as the reply is lost; the call is done. -/
  | lost
deriving DecidableEq, Repr

/-- The caller sees no error. -/
def CallEnd.succeeds (e : CallEnd) : Bool := e = .ok

/-- What was asked for has happened. -/
def CallEnd.done (e : CallEnd) : Bool := e ≠ .failed

/-- A call that is done exactly when it says so. -/
def CallEnd.ofBool (success : Bool) : CallEnd := if success then .ok else .failed

@[simp] theorem CallEnd.succeeds_ofBool (b : Bool) : (CallEnd.ofBool b).succeeds = b := by
  cases b <;> rfl

@[simp] theorem CallEnd.done_ofBool (b : Bool) : (CallEnd.ofBool b).done = b := by cases b <;> rfl

theorem CallEnd.succeeds_iff (e : CallEnd) : e.succeeds = true ↔ e = .ok := decide_eq_true_iff

/-- How the calls end that are made for a gap entry. -/
structure GapCalls where
  xack : CallEnd
  zscore : CallEnd
  zadd : CallEnd
  zremrangebyrank : CallEnd
deriving DecidableEq, Repr

def GapCalls.allOk : GapCalls := ⟨.ok, .ok, .ok, .ok⟩

def GapCalls.ofCalls (calls : Calls) : GapCalls where
  xack := .ofBool calls.xack
  zscore := .ofBool calls.zscore
  zadd := .ofBool calls.zadd
  zremrangebyrank := .ofBool calls.zremrangebyrank

/-- A consumer, and the entries that are pending in its group. -/
structure Inbox where
  c : Consumer
  pending : List String

namespace Inbox

/-- Takes an entry off the pending ones. -/
def ack (s : Inbox) (id : String) : Inbox := { s with pending := s.pending.filter (· ≠ id) }

/-- The gap branch of `handleMessage`, after the acknowledgement; the flag says whether an error is
returned. -/
def dispatchGap (c : Consumer) (g : GapMarker) (calls : GapCalls) (nowMs : Int64) :
    Consumer × Bool :=
  if calls.zscore.succeeds = false then (c, true)
  else if c.isGapDup g then (c, false)
  else
    let added := if calls.zadd.done then c.recordGapDedup g nowMs false else c
    if calls.zadd.succeeds = false then (added, true)
    else
      let trimmed := c.recordGapDedup g nowMs calls.zremrangebyrank.done
      if calls.zremrangebyrank.succeeds = false then (trimmed, true)
      else ({ trimmed with aw := c.aw.incrementGap, book := c.book.applyGap g }, false)

/-- `handleMessage` on a gap entry; the flag says whether an error is returned. -/
def handleGapEntry (s : Inbox) (id : String) (g : GapMarker) (calls : GapCalls) (nowMs : Int64) :
    Inbox × Bool :=
  let acked := if calls.xack.done then s.ack id else s
  if id ∈ s.c.seenIDs then (acked, false)
  else if calls.xack.succeeds = false then (acked, true)
  else
    let r := dispatchGap { s.c with seenIDs := id :: s.c.seenIDs } g calls nowMs
    ({ acked with c := r.1 }, r.2)

/-- It does what the consumer does when no reply is lost; the consumer has exited exactly when an
error is returned. -/
theorem handleGapEntry_eq_handleMessage (N : Numerics) (bestQuote : OrderBook → BestQuote)
    (s : Inbox) {m : Message} {g : GapMarker} (hparsed : parseMessage m.fields = .gap g)
    (hrun : s.c.exited = false) (calls : Calls) (nowMs : Int64) :
    let r := s.handleGapEntry m.id g (.ofCalls calls) nowMs
    (s.c.handleMessage N bestQuote m calls nowMs).1 = { r.1.c with exited := r.2 } := by
  obtain ⟨c, pending⟩ := s
  obtain ⟨xack, zscore, zadd, zrem, writeBar⟩ := calls
  have hself : ∀ c : Consumer, c.exited = false → c = { c with exited := false } := by
    rintro ⟨⟩ h
    cases h
    rfl
  simp only [Consumer.handleMessage, handleGapEntry, hparsed, GapCalls.ofCalls,
    CallEnd.succeeds_ofBool]
  by_cases hseen : m.id ∈ c.seenIDs
  · simp only [hseen, if_true]
    cases xack <;> exact hself c hrun
  simp only [hseen, if_false, Bool.false_eq_true]
  cases hx : xack with
  | false => rfl
  | true =>
      simp only [Bool.true_eq_false, if_false, Consumer.handleGap, dispatchGap,
        CallEnd.succeeds_ofBool, CallEnd.done_ofBool]
      cases zscore with
      | false => rfl
      | true =>
          simp only [Bool.true_eq_false, if_false]
          split
          · exact hself _ hrun
          · cases zadd with
            | false => rfl
            | true =>
                simp only [Bool.true_eq_false, if_false]
                cases zrem with
                | false => rfl
                | true => exact hself _ hrun

/-! ### Errors -/

/-- The gap has been applied: the book is cleared and the gap counters are raised. -/
structure Applied (c c' : Consumer) (g : GapMarker) : Prop where
  book : c'.book = c.book.applyGap g
  aw : c'.aw = c.aw.incrementGap

/-- The entry can be handled again: it is pending and its key is not recorded. -/
structure StillDue (s : Inbox) (id : String) (g : GapMarker) : Prop where
  pending : id ∈ s.pending
  unrecorded : s.c.isGapDup g = false

/-- An error leaves the gap applied or still to be applied. -/
def SafeOnError (s : Inbox) (id : String) (g : GapMarker) (calls : GapCalls) (nowMs : Int64) :
    Prop :=
  let r := s.handleGapEntry id g calls nowMs
  r.2 = true → Applied s.c r.1.c g ∨ StillDue r.1 id g

/-- The gap is never in flight between two calls when one of them fails: the acknowledgement is the
only call to fail, or nothing is left to be done. -/
def LosesNothing (s : Inbox) (id : String) (g : GapMarker) (calls : GapCalls) : Prop :=
  id ∈ s.c.seenIDs ∨
  (calls.xack = .failed ∧ id ∈ s.pending ∧ s.c.isGapDup g = false) ∨
  (calls.xack = .ok ∧ calls.zscore = .ok ∧
    (s.c.isGapDup g = true ∨ calls.zadd = .ok ∧ calls.zremrangebyrank = .ok))

variable {s : Inbox} {id : String} {g : GapMarker} {calls : GapCalls} {nowMs : Int64}

theorem not_mem_ack (s : Inbox) (id : String) : id ∉ (s.ack id).pending := by simp [ack]

theorem incrementGap_ne (aw : AccWriter) : aw ≠ aw.incrementGap := by
  intro h
  have hcount : aw.acc.gapCount = aw.acc.gapCount + 1 := congrArg (·.acc.gapCount) h
  omega

theorem aw_of_dispatchGap_error (c : Consumer) :
    (dispatchGap c g calls nowMs).2 = true → (dispatchGap c g calls nowMs).1.aw = c.aw := by
  unfold dispatchGap
  cases calls.zscore.succeeds with
  | false => exact fun _ => rfl
  | true =>
      cases c.isGapDup g with
      | true => exact fun _ => rfl
      | false =>
          cases calls.zadd.succeeds with
          | false =>
              intro _
              cases calls.zadd.done <;> rfl
          | true =>
              cases calls.zremrangebyrank.succeeds with
              | false => exact fun _ => rfl
              | true => exact fun h => Bool.noConfusion h

theorem dispatchGap_error_iff (c : Consumer) :
    (dispatchGap c g calls nowMs).2 = true ↔ ¬ (calls.zscore = .ok ∧
      (c.isGapDup g = true ∨ calls.zadd = .ok ∧ calls.zremrangebyrank = .ok)) := by
  simp only [← CallEnd.succeeds_iff]
  unfold dispatchGap
  cases calls.zscore.succeeds with
  | false => simp
  | true =>
      cases hdup : c.isGapDup g with
      | true => simp
      | false =>
          cases calls.zadd.succeeds with
          | false => simp
          | true => cases hz : calls.zremrangebyrank.succeeds <;> simp

/-- An entry that is still due is applied when it is handled again and the calls succeed. -/
theorem StillDue.applied (h : StillDue s id g) (hunseen : id ∉ s.c.seenIDs) (nowMs : Int64) :
    Applied s.c (s.handleGapEntry id g .allOk nowMs).1.c g := by
  have hdup : Consumer.isGapDup { s.c with seenIDs := id :: s.c.seenIDs } g = false := h.unrecorded
  constructor <;> simp [handleGapEntry, dispatchGap, hunseen, hdup, GapCalls.allOk,
    CallEnd.succeeds, CallEnd.done]

/-- **An error leaves the gap applied or still to be applied exactly when the acknowledgement is
the only call that fails, without being done, or no call fails that is reached.** -/
theorem safeOnError_iff (s : Inbox) (id : String) (g : GapMarker) (calls : GapCalls)
    (nowMs : Int64) : SafeOnError s id g calls nowMs ↔ LosesNothing s id g calls := by
  unfold SafeOnError LosesNothing handleGapEntry
  by_cases hseen : id ∈ s.c.seenIDs
  · simp [hseen]
  simp only [hseen, if_false, false_or]
  -- The entry is not applied before an error, so it has to be still due.
  cases hx : calls.xack with
  | failed =>
      simp only [CallEnd.succeeds, CallEnd.done, ne_eq, reduceCtorEq, decide_false, decide_not,
        decide_true, Bool.not_true, if_true, true_and, false_and, or_false, forall_const,
        Bool.false_eq_true, if_false]
      constructor
      · rintro (happlied | hdue)
        · exact absurd happlied.aw (incrementGap_ne _)
        · exact ⟨hdue.pending, hdue.unrecorded⟩
      · rintro ⟨hpending, hunrecorded⟩
        exact .inr ⟨hpending, hunrecorded⟩
  | lost =>
      simp only [CallEnd.succeeds, CallEnd.done, ne_eq, reduceCtorEq, decide_false, decide_not,
        Bool.not_false, if_true, false_and, or_self, iff_false, forall_const]
      rintro (happlied | hdue)
      · exact incrementGap_ne _ happlied.aw
      · exact not_mem_ack _ _ hdue.pending
  | ok =>
      simp only [CallEnd.succeeds, CallEnd.done, ne_eq, reduceCtorEq, decide_false, decide_not,
        decide_true, Bool.not_false, if_true, true_and, false_and, false_or, Bool.true_eq_false,
        if_false]
      set c : Consumer := { s.c with seenIDs := id :: s.c.seenIDs }
      constructor
      · intro hsafe
        by_contra hfails
        have herror : (dispatchGap c g calls nowMs).2 = true := (dispatchGap_error_iff c).mpr hfails
        rcases hsafe herror with happlied | hdue
        · have haw : _ = s.c.aw := aw_of_dispatchGap_error c herror
          exact incrementGap_ne _ (haw.symm.trans happlied.aw)
        · exact not_mem_ack _ _ hdue.pending
      · intro hok herror
        exact absurd hok ((dispatchGap_error_iff c).mp herror)

/-- A gap that is acknowledged and whose key cannot be looked up is lost. -/
theorem gap_lost_by_zscore :
    ¬ SafeOnError ⟨.new "kucoin" "BTC-USDT" 1000, ["1-0"]⟩ "1-0"
      ⟨10, 12, "external_disconnect", 300, "kucoin", "BTC-USDT"⟩
      ⟨.ok, .failed, .ok, .ok⟩ 400 := by
  intro h
  rcases h rfl with happlied | hdue
  · exact incrementGap_ne _ happlied.aw
  · exact absurd hdue.pending List.not_mem_nil

end Inbox

end MagnumOpus.Candle
