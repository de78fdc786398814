import MagnumOpus.Candle.GapEntries
import MagnumOpus.Lib.SuffixSplit

/-! # The identity of a gap

The dedup set takes two gap markers for the same one when their dedup keys are equal, that is, when
they have the same sequence numbers and the same cause (`gapDedupKey_eq_iff`): two markers that the
aggregator writes at the same numbers count as one.

A run of the consumer (`Happening`) may hand it any entries, again and again, with any of its calls
failing, and may start it again at any point: the set is in Redis and stays.  `toldApart` says what
happens to the markers of a run. -/

namespace MagnumOpus.Candle

open EventMachine Strconv SuffixSplit

/-! ### Keys -/

/-- What a marker is identified by. -/
def GapMarker.identity (g : GapMarker) : Int64 × Int64 × String :=
  (g.seqBefore, g.seqAfter, g.gapCause)

theorem colon_notMem_repr (n : ℕ) : ':' ∉ n.repr.toList := by
  intro h
  rw [Nat.toList_repr] at h
  have hdigit := Nat.isDigit_of_mem_toDigits (b := 10) (by omega) (le_refl _) h
  exact absurd hdigit (by decide)

theorem colon_notMem_formatInt (n : Int64) : ':' ∉ (formatInt n).toList := by
  unfold formatInt
  split
  · rw [String.toList_append, List.mem_append]
    rintro (h | h)
    · exact absurd h (by decide)
    · exact colon_notMem_repr _ h
  · exact colon_notMem_repr _

theorem formatInt_injective : Function.Injective formatInt :=
  Function.LeftInverse.injective parseInt_formatInt

/-- Two markers have the same dedup key exactly when they have the same identity. -/
theorem gapDedupKey_eq_iff (g g' : GapMarker) :
    gapDedupKey g = gapDedupKey g' ↔ g.identity = g'.identity := by
  constructor
  · intro h
    have hchars := congrArg String.toList h
    simp only [gapDedupKey, String.toList_append, List.append_assoc,
      show ":".toList = [':'] from rfl, List.singleton_append] at hchars
    obtain ⟨hbefore, hrest⟩ := append_sep_inj (colon_notMem_formatInt _)
      (colon_notMem_formatInt _) hchars
    obtain ⟨hafter, hcause⟩ := append_sep_inj (colon_notMem_formatInt _)
      (colon_notMem_formatInt _) hrest
    have hbefore' := formatInt_injective (String.toList_injective hbefore)
    have hafter' := formatInt_injective (String.toList_injective hafter)
    have hcause' := String.toList_injective hcause
    rw [GapMarker.identity, GapMarker.identity, hbefore', hafter', hcause']
  · intro h
    obtain ⟨hbefore, hrest⟩ := Prod.mk.inj h
    obtain ⟨hafter, hcause⟩ := Prod.mk.inj hrest
    rw [gapDedupKey, gapDedupKey, hbefore, hafter, hcause]

namespace Consumer

/-! ### The dedup set -/

/-- The keys in the set. -/
def gapKeys (c : Consumer) : List String := c.gapDedup.map (·.2)

theorem isGapDup_iff (c : Consumer) (g : GapMarker) :
    c.isGapDup g = true ↔ gapDedupKey g ∈ c.gapKeys := by
  simp only [isGapDup, gapKeys, List.any_eq_true, List.mem_map, decide_eq_true_eq]

variable {c : Consumer} {g : GapMarker} {nowMs : Int64} {trimmed : Bool}

/-- The set with the key of a gap, before it is trimmed. -/
def withGap (c : Consumer) (g : GapMarker) (nowMs : Int64) : List (ℤ × String) :=
  (c.gapDedup.filter (·.2 ≠ gapDedupKey g)).orderedInsert ScoredBefore
    (nowMs.toInt, gapDedupKey g)

theorem length_withGap_le (c : Consumer) (g : GapMarker) (nowMs : Int64) :
    (c.withGap g nowMs).length ≤ c.gapDedup.length + 1 := by
  have hfilter := List.length_filter_le (·.2 ≠ gapDedupKey g) c.gapDedup
  rw [withGap, List.orderedInsert_length]
  omega

/-- Recording a gap drops the first elements of a set that has grown too long. -/
theorem gapDedup_recordGapDedup (c : Consumer) (g : GapMarker) (nowMs : Int64) (trimmed : Bool) :
    ∃ n, (c.recordGapDedup g nowMs trimmed).gapDedup = (c.withGap g nowMs).drop n ∧
      ((c.withGap g nowMs).length ≤ 10000 → n = 0) := by
  cases trimmed with
  | true =>
      refine ⟨(c.withGap g nowMs).length - 10000, ?_, ?_⟩
      · simp only [recordGapDedup, withGap, if_true]
      · intro h
        omega
  | false => exact ⟨0, rfl, fun _ => rfl⟩

theorem gapDedup_recordGapDedup_congr {c' : Consumer} (h : c'.gapDedup = c.gapDedup)
    (g : GapMarker) (nowMs : Int64) (trimmed : Bool) :
    (c'.recordGapDedup g nowMs trimmed).gapDedup = (c.recordGapDedup g nowMs trimmed).gapDedup := by
  simp only [recordGapDedup, h]

theorem gapKeys_recordGapDedup_subset {k : String}
    (h : k ∈ (c.recordGapDedup g nowMs trimmed).gapKeys) : k = gapDedupKey g ∨ k ∈ c.gapKeys := by
  obtain ⟨e, he, rfl⟩ := List.mem_map.mp h
  obtain ⟨n, hset, -⟩ := gapDedup_recordGapDedup c g nowMs trimmed
  rw [hset] at he
  rcases (List.mem_orderedInsert ..).mp (List.mem_of_mem_drop he) with rfl | hold
  · exact .inl rfl
  · exact .inr (List.mem_map_of_mem (List.mem_filter.mp hold).1)

theorem length_recordGapDedup_le (c : Consumer) (g : GapMarker) (nowMs : Int64)
    (trimmed : Bool) :
    (c.recordGapDedup g nowMs trimmed).gapDedup.length ≤ c.gapDedup.length + 1 := by
  obtain ⟨n, hset, -⟩ := gapDedup_recordGapDedup c g nowMs trimmed
  have hlength := length_withGap_le c g nowMs
  rw [hset, List.length_drop]
  omega

theorem gapKeys_recordGapDedup_of_lt (hfull : c.gapDedup.length < 10000) {k : String}
    (h : k = gapDedupKey g ∨ k ∈ c.gapKeys) : k ∈ (c.recordGapDedup g nowMs trimmed).gapKeys := by
  obtain ⟨n, hset, hzero⟩ := gapDedup_recordGapDedup c g nowMs trimmed
  have hlength := length_withGap_le c g nowMs
  rw [gapKeys, hset, hzero (by omega), List.drop_zero, List.mem_map]
  by_cases hk : k = gapDedupKey g
  · exact ⟨_, (List.mem_orderedInsert ..).mpr (.inl rfl), hk.symm⟩
  · obtain ⟨e, he, rfl⟩ := List.mem_map.mp (h.resolve_left hk)
    refine ⟨e, (List.mem_orderedInsert ..).mpr (.inr (List.mem_filter.mpr ⟨he, ?_⟩)), rfl⟩
    exact decide_eq_true hk

/-! ### What a step does with a gap marker -/

/-- How the calls of an event end. -/
def gapCallsOf : Event → Calls
  | .message _ calls _ => calls
  | .barClose calls _ => calls
  | .partialPublish => {}
  | .shutdown calls _ => calls

/-- The gap marker that an event hands to the dedup set: its entry has not been seen in this
second, and is acknowledged, and its key is looked up. -/
def presentsGap (c : Consumer) : Event → Option GapMarker
  | .message m calls _ =>
      match parseMessage m.fields with
      | .gap g =>
          if c.exited = false ∧ m.id ∉ c.seenIDs ∧ calls.xack = true ∧ calls.zscore = true then
            some g
          else none
      | _ => none
  | _ => none

/-- What becomes of a gap marker. -/
inductive GapOutcome where
  /-- Its key has been added to the set. -/
  | recorded (g : GapMarker)
  | applied (g : GapMarker)
deriving DecidableEq

def GapOutcome.recordedGap : GapOutcome → Option GapMarker
  | .recorded g => some g
  | .applied _ => none

def GapOutcome.appliedGap : GapOutcome → Option GapMarker
  | .recorded _ => none
  | .applied g => some g

/-- What becomes of the gap marker of an event. -/
def gapOutcomes (c : Consumer) (ev : Event) : List GapOutcome :=
  match c.presentsGap ev with
  | none => []
  | some g =>
      if c.isGapDup g ∨ (gapCallsOf ev).zadd = false then []
      else if (gapCallsOf ev).zremrangebyrank = false then [.recorded g]
      else [.recorded g, .applied g]

section Steps

variable (N : Numerics) (bestQuote : OrderBook → BestQuote)

/-- The event is an entry with this gap marker. -/
def IsGapEntry (ev : Event) (g : GapMarker) : Prop :=
  ∃ m calls nowMs, ev = .message m calls nowMs ∧ parseMessage m.fields = .gap g

/-- What an event does to the parts of a consumer that its gap marker concerns. -/
inductive GapStep (c : Consumer) (ev : Event) (c' : Consumer) : Prop
  /-- Nothing is recorded. -/
  | quiet (hout : c.gapOutcomes ev = []) (hset : c'.gapDedup = c.gapDedup)
      (hkeep : ∀ g, IsGapEntry ev g → c'.book = c.book ∧ c'.aw = c.aw)
  /-- The marker is recorded, and is applied unless the set could not be trimmed. -/
  | recorded {g : GapMarker} (nowMs : Int64) (trimmed : Bool)
      (hpresents : c.presentsGap ev = some g) (hnew : c.isGapDup g = false)
      (hout : c.gapOutcomes ev = if trimmed then [.recorded g, .applied g] else [.recorded g])
      (hset : c'.gapDedup = (c.recordGapDedup g nowMs trimmed).gapDedup)
      (happlied : if trimmed then Inbox.Applied c c' g else c'.book = c.book ∧ c'.aw = c.aw)

theorem gapStep_quiet_of_none {ev : Event} {c' : Consumer} (h : c.presentsGap ev = none)
    (hset : c'.gapDedup = c.gapDedup)
    (hkeep : ∀ g, IsGapEntry ev g → c'.book = c.book ∧ c'.aw = c.aw) : GapStep c ev c' := by
  refine .quiet ?_ hset hkeep
  rw [gapOutcomes, h]

theorem gapStep_of_not_gap {m : Message} {calls : Calls} {c' : Consumer}
    (hparsed : ∀ g, parseMessage m.fields ≠ .gap g) (hset : c'.gapDedup = c.gapDedup) :
    GapStep c (.message m calls nowMs) c' := by
  refine gapStep_quiet_of_none ?_ hset ?_
  · rw [presentsGap]
    split
    next g hg => exact absurd hg (hparsed g)
    next => rfl
  · rintro g ⟨_, _, _, heq, hg⟩
    cases heq
    exact absurd hg (hparsed g)

theorem gapStep_handleGap {m : Message} {calls : Calls} (hrun : c.exited = false)
    (hunseen : m.id ∉ c.seenIDs) (hparsed : parseMessage m.fields = .gap g)
    (hxack : calls.xack = true) {seen : Consumer} (hset : seen.gapDedup = c.gapDedup)
    (hbook : seen.book = c.book) (haw : seen.aw = c.aw) :
    GapStep c (.message m calls nowMs) (seen.handleGap g calls nowMs).1 := by
  have hdup : seen.isGapDup g = c.isGapDup g := by rw [isGapDup, isGapDup, hset]
  unfold handleGap
  rw [hdup]
  cases hzscore : calls.zscore with
  | false =>
      refine gapStep_quiet_of_none ?_ hset fun _ _ => ⟨hbook, haw⟩
      simp [presentsGap, hparsed, hzscore]
  | true =>
      have hpresents : c.presentsGap (.message m calls nowMs) = some g := by
        simp only [presentsGap, hparsed, hrun, hunseen, hxack, hzscore, not_false_eq_true, and_self,
          if_true]
      have hout : c.gapOutcomes (.message m calls nowMs) =
          if c.isGapDup g ∨ calls.zadd = false then []
          else if calls.zremrangebyrank = false then [.recorded g]
          else [.recorded g, .applied g] := by
        rw [gapOutcomes, hpresents]
        rfl
      cases hnew : c.isGapDup g with
      | true =>
          refine .quiet ?_ hset fun _ _ => ⟨hbook, haw⟩
          rw [hout, if_pos (.inl hnew)]
      | false =>
          cases hzadd : calls.zadd with
          | false =>
              refine .quiet ?_ hset fun _ _ => ⟨hbook, haw⟩
              rw [hout, if_pos (.inr hzadd)]
          | true =>
              simp only [hnew, hzadd, Bool.false_eq_true, Bool.true_eq_false, or_self,
                if_false] at hout ⊢
              cases hzrem : calls.zremrangebyrank with
              | false =>
                  rw [hzrem] at hout
                  rw [if_pos rfl]
                  refine .recorded nowMs false hpresents hnew hout ?_ ⟨hbook, haw⟩
                  simp only [gapDedup_recordGapDedup_congr hset]
              | true =>
                  rw [hzrem] at hout
                  rw [if_neg Bool.true_eq_false.mp]
                  refine .recorded nowMs true hpresents hnew hout ?_ ⟨?_, ?_⟩
                  · simp only [gapDedup_recordGapDedup_congr hset]
                  · exact congrArg (·.applyGap g) hbook
                  · exact congrArg (·.incrementGap) haw

theorem gapStep_message (m : Message) (calls : Calls) (nowMs : Int64) (hrun : c.exited = false) :
    GapStep c (.message m calls nowMs) (c.handleMessage N bestQuote m calls nowMs).1 := by
  unfold handleMessage
  by_cases hunseen : m.id ∈ c.seenIDs
  · rw [if_pos hunseen]
    refine gapStep_quiet_of_none ?_ rfl fun _ _ => ⟨rfl, rfl⟩
    rw [presentsGap]
    split <;> simp [hunseen]
  rw [if_neg hunseen]
  cases hparsed : parseMessage m.fields with
  | gap g =>
      simp only [Bool.false_eq_true, if_false]
      split
      next hxack =>
        refine gapStep_quiet_of_none ?_ rfl fun _ _ => ⟨rfl, rfl⟩
        simp [presentsGap, hparsed, hxack]
      next hxack =>
        have hacked : calls.xack = true := Bool.eq_true_of_not_eq_false hxack
        exact gapStep_handleGap hrun hunseen hparsed hacked rfl rfl rfl
  | tick t =>
      have hother : ∀ g, parseMessage m.fields ≠ .gap g := fun g h => by
        rw [hparsed] at h
        cases h
      simp only
      split
      · exact gapStep_of_not_gap hother rfl
      · split <;> exact gapStep_of_not_gap hother rfl
  | snapshot s =>
      have hother : ∀ g, parseMessage m.fields ≠ .gap g := fun g h => by
        rw [hparsed] at h
        cases h
      simp only [Bool.false_eq_true, if_false]
      split <;> exact gapStep_of_not_gap hother rfl
  | unknown =>
      have hother : ∀ g, parseMessage m.fields ≠ .gap g := fun g h => by
        rw [hparsed] at h
        cases h
      simp only [Bool.false_eq_true, if_false]
      split <;> exact gapStep_of_not_gap hother rfl

theorem gapStep_of_signal {ev : Event} {c' : Consumer} (hnone : c.presentsGap ev = none)
    (hsignal : ∀ m calls nowMs, ev ≠ .message m calls nowMs) (hset : c'.gapDedup = c.gapDedup) :
    GapStep c ev c' := by
  refine gapStep_quiet_of_none hnone hset ?_
  rintro g ⟨m, calls, nowMs, heq, -⟩
  exact absurd heq (hsignal m calls nowMs)

/-- **A step does one of these things with the gap marker of its event.** -/
theorem gapStep_step (c : Consumer) (ev : Event) : GapStep c ev (step N bestQuote c ev).1 := by
  cases ev with
  | message m calls nowMs =>
      rw [step]
      split
      next hexited =>
        refine gapStep_quiet_of_none ?_ rfl fun _ _ => ⟨rfl, rfl⟩
        rw [presentsGap]
        split <;> simp [hexited]
      next hrun => exact gapStep_message N bestQuote m calls nowMs (Bool.eq_false_iff.mpr hrun)
  | barClose calls nowMs =>
      refine gapStep_of_signal rfl (fun _ _ _ => Event.noConfusion) ?_
      rw [step]
      split <;> rfl
  | partialPublish =>
      refine gapStep_of_signal rfl (fun _ _ _ => Event.noConfusion) ?_
      rw [step]
      split <;> rfl
  | shutdown calls nowMs =>
      refine gapStep_of_signal rfl (fun _ _ _ => Event.noConfusion) ?_
      rw [step]
      split <;> rfl

end Steps

end Consumer

/-! ### Runs -/

/-- What happens to the consumer of a symbol. -/
inductive Happening where
  | event (ev : Event)
  /-- The process starts again, with a consumer that is built anew. -/
  | restart (c : Consumer)

open Consumer

section Runs

variable (N : Numerics) (bestQuote : OrderBook → BestQuote)

def happen : Step Consumer Happening GapOutcome := fun c h =>
  match h with
  | .event ev => ((Consumer.step N bestQuote c ev).1, c.gapOutcomes ev)
  | .restart c' => ({ c' with gapDedup := c.gapDedup }, [])

/-- The markers recorded in the dedup set. -/
def recordedGaps (outs : List GapOutcome) : List GapMarker := outs.filterMap (·.recordedGap)

/-- The markers applied. -/
def appliedGaps (outs : List GapOutcome) : List GapMarker := outs.filterMap (·.appliedGap)

/-- The state and the outcomes of a run from a new service on. -/
structure GapRun (c : Consumer) (outs : List GapOutcome) : Prop where
  /-- Every key in the set is that of a recorded marker. -/
  sound : ∀ k ∈ c.gapKeys, ∃ g ∈ recordedGaps outs, k = gapDedupKey g
  length_le : c.gapDedup.length ≤ (recordedGaps outs).length
  /-- As long as the set has never been too long, the keys of all recorded markers are in it. -/
  complete : (recordedGaps outs).length ≤ 10000 → ∀ g ∈ recordedGaps outs, gapDedupKey g ∈ c.gapKeys
  /-- Then no identity is recorded twice, and only recorded markers are applied. -/
  nodup : (recordedGaps outs).length ≤ 10000 →
    ((recordedGaps outs).map GapMarker.identity).Nodup
  sublist : (appliedGaps outs).Sublist (recordedGaps outs)

variable {N bestQuote} {c : Consumer} {outs : List GapOutcome}

theorem GapRun.of_gapDedup_eq (h : GapRun c outs) {c' : Consumer}
    (hset : c'.gapDedup = c.gapDedup) : GapRun c' outs where
  sound := by
    rw [gapKeys, hset]
    exact h.sound
  length_le := by
    rw [hset]
    exact h.length_le
  complete := by
    rw [gapKeys, hset]
    exact h.complete
  nodup := h.nodup
  sublist := h.sublist

theorem GapRun.record (h : GapRun c outs) {c' : Consumer} {g : GapMarker} {nowMs : Int64}
    {trimmed : Bool} (hnew : c.isGapDup g = false)
    (hset : c'.gapDedup = (c.recordGapDedup g nowMs trimmed).gapDedup) {added : List GapOutcome}
    (hrecorded : recordedGaps added = [g]) (happlied : (appliedGaps added).Sublist [g]) :
    GapRun c' (outs ++ added) := by
  have hrecorded' : recordedGaps (outs ++ added) = recordedGaps outs ++ [g] := by
    rw [recordedGaps, List.filterMap_append, ← recordedGaps, ← recordedGaps, hrecorded]
  have hkeys : c'.gapKeys = (c.recordGapDedup g nowMs trimmed).gapKeys := by
    rw [gapKeys, gapKeys, hset]
  have hfresh : gapDedupKey g ∉ c.gapKeys := by
    rw [← isGapDup_iff, hnew]
    exact Bool.false_ne_true
  constructor
  case sound =>
    intro k hk
    rw [hkeys] at hk
    rw [hrecorded']
    rcases gapKeys_recordGapDedup_subset hk with rfl | hold
    · exact ⟨g, by simp, rfl⟩
    · obtain ⟨g', hg', rfl⟩ := h.sound k hold
      exact ⟨g', by simp [hg'], rfl⟩
  case length_le =>
    have hstep := length_recordGapDedup_le c g nowMs trimmed
    have hle := h.length_le
    rw [hset, hrecorded', List.length_append, List.length_singleton]
    omega
  case complete =>
    intro hcount g' hg'
    rw [hrecorded', List.length_append, List.length_singleton] at hcount
    have hle := h.length_le
    rw [hkeys]
    refine gapKeys_recordGapDedup_of_lt (by omega) ?_
    rw [hrecorded', List.mem_append, List.mem_singleton] at hg'
    rcases hg' with hold | rfl
    · exact .inr (h.complete (by omega) g' hold)
    · exact .inl rfl
  case nodup =>
    intro hcount
    rw [hrecorded', List.length_append, List.length_singleton] at hcount
    rw [hrecorded', List.map_append, List.map_singleton, List.nodup_append]
    refine ⟨h.nodup (by omega), List.nodup_singleton _, ?_⟩
    intro i hi j hj hij
    obtain ⟨g', hg', rfl⟩ := List.mem_map.mp hi
    rw [List.mem_singleton.mp hj] at hij
    refine hfresh ?_
    rw [(gapDedupKey_eq_iff g g').mpr hij.symm]
    exact h.complete (by omega) g' hg'
  case sublist =>
    rw [hrecorded', appliedGaps, List.filterMap_append]
    exact h.sublist.append happlied

theorem gapRun_step (h : GapRun c outs) (hap : Happening) :
    GapRun (happen N bestQuote c hap).1 (outs ++ (happen N bestQuote c hap).2) := by
  cases hap with
  | restart c' =>
      simp only [happen, List.append_nil]
      exact h.of_gapDedup_eq rfl
  | event ev =>
      simp only [happen]
      cases gapStep_step N bestQuote c ev with
      | quiet hout hset _ =>
          rw [hout, List.append_nil]
          exact h.of_gapDedup_eq hset
      | recorded nowMs trimmed _ hnew hout hset _ =>
          rw [hout]
          cases trimmed with
          | false => exact h.record hnew hset rfl (List.nil_sublist _)
          | true => exact h.record hnew hset rfl (List.Sublist.refl _)

theorem gapRun_final (exchange symbol : String) (coldBufSize : ℕ) (hs : List Happening) :
    GapRun (final (happen N bestQuote) (.new exchange symbol coldBufSize) hs)
      (trace (happen N bestQuote) (.new exchange symbol coldBufSize) hs) := by
  induction hs using List.reverseRecOn with
  | nil => exact ⟨by simp [gapKeys, Consumer.new], le_refl _, by simp [recordedGaps],
      by simp [recordedGaps], List.Sublist.refl _⟩
  | append_singleton hs hap ih =>
      rw [final_append, trace_append]
      simp only [final_cons, final_nil, trace_cons, trace_nil, List.append_nil]
      exact gapRun_step ih hap

/-- What becomes of the gap markers of a run from a new service on, with `c` the consumer and
`outs` the outcomes so far whenever the run comes to an event. -/
structure ToldApart (N : Numerics) (bestQuote : OrderBook → BestQuote) (c : Consumer)
    (outs : List GapOutcome) : Prop where
  /-- A marker with this outcome clears the book and raises the gap counters. -/
  applied : ∀ ev g, .applied g ∈ c.gapOutcomes ev →
    Inbox.Applied c (Consumer.step N bestQuote c ev).1 g
  /-- An entry whose marker has not this outcome changes neither. -/
  kept : ∀ ev g, IsGapEntry ev g → .applied g ∉ c.gapOutcomes ev →
    (Consumer.step N bestQuote c ev).1.book = c.book ∧ (Consumer.step N bestQuote c ev).1.aw = c.aw
  /-- A marker is applied, and recorded, when none with its identity has been recorded before. -/
  first : ∀ ev g, c.presentsGap ev = some g → (gapCallsOf ev).zadd = true →
    (gapCallsOf ev).zremrangebyrank = true →
    (∀ g' ∈ recordedGaps outs, g'.identity ≠ g.identity) →
    c.gapOutcomes ev = [.recorded g, .applied g]
  /-- No marker is applied while the set has its identity. -/
  again : ∀ ev g, c.presentsGap ev = some g → gapDedupKey g ∈ c.gapKeys → c.gapOutcomes ev = []
  /-- While there is room, the set has the identities of all markers that have been recorded. -/
  held : (recordedGaps outs).length ≤ 10000 → ∀ g g', g' ∈ recordedGaps outs →
    g'.identity = g.identity → gapDedupKey g ∈ c.gapKeys
  /-- So no two applied markers have the same identity. -/
  once : (recordedGaps outs).length ≤ 10000 → ((appliedGaps outs).map GapMarker.identity).Nodup

theorem applied_mem_gapOutcomes {ev : Event} {g : GapMarker} (N : Numerics)
    (bestQuote : OrderBook → BestQuote) :
    (.applied g ∈ c.gapOutcomes ev → Inbox.Applied c (Consumer.step N bestQuote c ev).1 g) ∧
    (IsGapEntry ev g → .applied g ∉ c.gapOutcomes ev →
      (Consumer.step N bestQuote c ev).1.book = c.book ∧
      (Consumer.step N bestQuote c ev).1.aw = c.aw) := by
  cases gapStep_step N bestQuote c ev with
  | quiet hout _ hkeep =>
      rw [hout]
      exact ⟨fun h => absurd h List.not_mem_nil, fun hg _ => hkeep g hg⟩
  | @recorded g₁ nowMs trimmed hpresents _ hout _ happlied =>
      rw [hout]
      cases trimmed with
      | false =>
          simp only [Bool.false_eq_true, if_false] at happlied ⊢
          refine ⟨fun h => ?_, fun _ _ => happlied⟩
          exact absurd (List.mem_singleton.mp h) GapOutcome.noConfusion
      | true =>
          simp only [if_true] at happlied ⊢
          constructor
          · intro h
            obtain rfl : g = g₁ := by simpa using h
            exact happlied
          · rintro ⟨m, calls, nowMs', rfl, hparsed⟩ hnot
            -- The marker presented is that of the entry.
            have hsame : g = g₁ := by
              simp only [presentsGap, hparsed] at hpresents
              split at hpresents
              · exact Option.some.inj hpresents
              · cases hpresents
            exact absurd (by simp [hsame]) hnot

theorem GapRun.tellsApart (h : GapRun c outs) (N : Numerics) (bestQuote : OrderBook → BestQuote) :
    ToldApart N bestQuote c outs where
  applied _ _ := (applied_mem_gapOutcomes N bestQuote).1
  kept _ _ := (applied_mem_gapOutcomes N bestQuote).2
  first ev g hpresents hzadd hzrem hnew := by
    have hdup : c.isGapDup g = false := by
      rw [Bool.eq_false_iff, ne_eq, isGapDup_iff]
      intro hkey
      obtain ⟨g', hg', hsame⟩ := h.sound _ hkey
      exact hnew g' hg' ((gapDedupKey_eq_iff g' g).mp hsame.symm)
    rw [gapOutcomes, hpresents]
    simp [hdup, hzadd, hzrem]
  again ev g hpresents hheld := by
    have hdup : c.isGapDup g = true := (c.isGapDup_iff g).mpr hheld
    rw [gapOutcomes, hpresents]
    simp [hdup]
  held hcount g g' hg' hsame := by
    rw [← (gapDedupKey_eq_iff g' g).mpr hsame]
    exact h.complete hcount g' hg'
  once hcount := (h.sublist.map GapMarker.identity).nodup (h.nodup hcount)

/-- **Markers are told apart by their sequence numbers and cause, and by nothing else**, at every
point of every run from a new service on. -/
theorem toldApart (N : Numerics) (bestQuote : OrderBook → BestQuote) (exchange symbol : String)
    (coldBufSize : ℕ) (hs : List Happening) :
    ToldApart N bestQuote
      (final (happen N bestQuote) (.new exchange symbol coldBufSize) hs)
      (trace (happen N bestQuote) (.new exchange symbol coldBufSize) hs) :=
  (gapRun_final exchange symbol coldBufSize hs).tellsApart N bestQuote

end Runs

end MagnumOpus.Candle
