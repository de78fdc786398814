import MagnumOpus.Candle.StartUp

/-! # Which splits of the deltas around a snapshot are safe

The sequences of a start-up are given; the sides, prices and sizes of its deltas are not
(`StartUp.dressed`). When the sequences are `Ordered`, what arrives is what is past the snapshot.
Otherwise two deltas that duel for one level, or a stale one that is alone on its level, show the
wrong size (`duel`). -/

namespace MagnumOpus.Candle.OrderBook

/-- A delta with the side, price and size that belong to its sequence. -/
def dress (f : Int64 → String × String × String) (t : Tick) : Tick :=
  { t with side := (f t.seq).1, price := (f t.seq).2.1, size := (f t.seq).2.2 }

@[simp] theorem seq_dress (f : Int64 → String × String × String) (t : Tick) :
    (dress f t).seq = t.seq := rfl

theorem map_seq_dress (f : Int64 → String × String × String) (ts : List Tick) :
    (ts.map (dress f)).map Tick.seq = ts.map Tick.seq := by
  rw [List.map_map]
  rfl

theorem filter_dress (f : Int64 → String × String × String) (k : Int64) (ts : List Tick) :
    (ts.map (dress f)).filter (fun t => k < t.seq) =
      (ts.filter fun t => k < t.seq).map (dress f) := by
  rw [List.filter_map]
  rfl

namespace StartUp

section

variable (u : StartUp) (f : Int64 → String × String × String)

theorem deltas_dress : ∀ t ∈ u.before.map (dress f) ++ u.after.map (dress f), t.level ≠ 0 := by
  rw [← List.map_append]
  intro t ht
  obtain ⟨t', ht', rfl⟩ := List.mem_map.mp ht
  exact u.deltas t' ht'

theorem distinct_dress :
    ((u.before.map (dress f) ++ u.after.map (dress f)).map Tick.seq).Nodup := by
  rw [← List.map_append, map_seq_dress]
  exact u.distinct

theorem below_dress : ∀ t ∈ u.before.map (dress f) ++ u.after.map (dress f),
    t.seq.toInt < 2 * u.snapshot.seq.toInt := by
  rw [← List.map_append]
  intro t ht
  obtain ⟨t', ht', rfl⟩ := List.mem_map.mp ht
  exact u.below t' ht'

theorem before_sorted_dress :
    (u.before.map (dress f)).Pairwise fun t t' => t.seq < t'.seq :=
  List.pairwise_map.mpr u.before_sorted

theorem after_sorted_dress :
    (u.after.map (dress f)).Pairwise fun t t' => t.seq < t'.seq :=
  List.pairwise_map.mpr u.after_sorted

/-- The same sequences, split in the same way, with other sides, prices and sizes. -/
def dressed : StartUp where
  snapshot := u.snapshot
  before := u.before.map (dress f)
  after := u.after.map (dress f)
  deltas := u.deltas_dress f
  distinct := u.distinct_dress f
  below := u.below_dress f
  before_sorted := u.before_sorted_dress f
  after_sorted := u.after_sorted_dress f

end

variable {u : StartUp} {exchange symbol : String} {coldBufSize : ℕ}

/-! ### Sequence order -/

theorem mem_newer {t : Tick} :
    t ∈ u.newer ↔ (t ∈ u.before ∨ t ∈ u.after) ∧ u.snapshot.seq < t.seq := by
  unfold newer
  rw [List.mem_insertionSort, List.mem_filter, List.mem_append, decide_eq_true_iff]

theorem nodup_newer (u : StartUp) : (u.newer.map Tick.seq).Nodup := by
  have hperm : (u.newer.map Tick.seq).Perm
      (((u.before ++ u.after).filter fun t => u.snapshot.seq < t.seq).map Tick.seq) :=
    (List.perm_insertionSort _ _).map _
  rw [hperm.nodup_iff]
  exact u.distinct.sublist ((List.filter_sublist).map _)

theorem newer_sorted (u : StartUp) : u.newer.Pairwise fun t t' => t.seq < t'.seq := by
  have hle : u.newer.Pairwise fun t t' => t.seq ≤ t'.seq := by
    have : Std.Total fun t t' : Tick => t.seq ≤ t'.seq := ⟨fun _ _ => Int64.le_total _ _⟩
    have : IsTrans Tick fun t t' => t.seq ≤ t'.seq := ⟨fun _ _ _ => Int64.le_trans⟩
    exact List.pairwise_insertionSort _ _
  have hne : u.newer.Pairwise fun t t' => t.seq ≠ t'.seq := List.pairwise_map.mp u.nodup_newer
  exact (hle.and hne).imp fun h => Int64.lt_of_le_of_ne h.1 h.2

theorem seq_ne_of_mem {b t : Tick} (hb : b ∈ u.before) (ht : t ∈ u.after) : b.seq ≠ t.seq := by
  have hnodup := u.distinct
  rw [List.map_append, List.nodup_append] at hnodup
  exact hnodup.2.2 _ (List.mem_map_of_mem hb) _ (List.mem_map_of_mem ht)

theorem Ordered.arrived (h : u.Ordered) : u.arrived = u.newer := by
  obtain ⟨hafter, hbefore⟩ := h
  have hall : (u.after.filter fun t => u.snapshot.seq < t.seq) = u.after := by
    rw [List.filter_eq_self]
    intro t ht
    exact decide_eq_true (hafter t ht)
  have hsorted : u.arrived.Pairwise fun t t' => t.seq ≤ t'.seq := by
    unfold StartUp.arrived
    rw [List.pairwise_append]
    refine ⟨(u.before_sorted.filter _).imp Int64.le_of_lt, u.after_sorted.imp Int64.le_of_lt, ?_⟩
    intro b hb t ht
    obtain ⟨hb, hseq⟩ := List.mem_filter.mp hb
    exact Int64.le_of_lt (hbefore b hb (of_decide_eq_true hseq) t ht)
  unfold newer
  rw [List.filter_append, hall]
  exact hsorted.insertionSort_eq.symm

/-! ### Other sides, prices and sizes -/

theorem newer_dressed (u : StartUp) (f : Int64 → String × String × String) :
    (u.dressed f).newer = u.newer.map (dress f) := by
  unfold newer dressed
  dsimp only
  rw [← List.map_append, filter_dress]
  exact (List.map_insertionSort (fun t t' : Tick => t.seq ≤ t'.seq)
    (fun t t' : Tick => t.seq ≤ t'.seq) (dress f) _ fun t _ t' _ => Iff.rfl).symm

theorem Ordered.dressed (h : u.Ordered) (f : Int64 → String × String × String) :
    (u.dressed f).Ordered := by
  obtain ⟨hafter, hbefore⟩ := h
  constructor
  · intro t ht
    obtain ⟨t', ht', rfl⟩ := List.mem_map.mp ht
    exact hafter t' ht'
  · intro b hb hseq t ht
    obtain ⟨b', hb', rfl⟩ := List.mem_map.mp hb
    obtain ⟨t', ht', rfl⟩ := List.mem_map.mp ht
    exact hbefore b' hb' hseq t' ht'

/-- Two deltas that set one bid to different sizes; all others are on another bid. -/
def duel (k k' : Int64) (seq : Int64) : String × String × String :=
  ("buy", if seq = k ∨ seq = k' then "1" else "2", if seq = k then "1" else "2")

theorem level_duel {k k' : Int64} {t : Tick} :
    (decide ((dress (duel k k') t).side = "buy") = true ∧ (dress (duel k k') t).price = "1") ↔
      t.seq = k ∨ t.seq = k' := by
  unfold dress duel
  by_cases h : t.seq = k ∨ t.seq = k'
  · simp [h]
  · simp [h]

theorem size_duel (k k' : Int64) (t : Tick) :
    (if (dress (duel k k') t).size = "0" then none else some (dress (duel k k') t).size) =
      some (if t.seq = k then "1" else "2") := by
  unfold dress duel
  by_cases h : t.seq = k
  · simp [h]
  · simp [h]

/-- A delta after the snapshot wins its duel with one that is not after it. -/
theorem levelAt_arrived_duel {t : Tick} {k' : Int64} (ht : t ∈ u.after)
    (hk' : ∀ t' ∈ u.after, t'.seq = k' → t'.seq = t.seq) :
    levelAt true "1" (u.dressed (duel t.seq k')).arrived = some "1" := by
  have hmem : dress (duel t.seq k') t ∈ (u.dressed (duel t.seq k')).after := List.mem_map_of_mem ht
  have hlevel := level_duel.mpr (.inl rfl : t.seq = t.seq ∨ t.seq = k')
  unfold StartUp.arrived
  rw [levelAt_append_of_mem hmem hlevel,
    levelAt_of_newest (u.dressed (duel t.seq k')).after_sorted hmem hlevel, size_duel, if_pos rfl]
  intro t' ht' hlevel'
  obtain ⟨t₀, ht₀, rfl⟩ := List.mem_map.mp ht'
  have hseq : t₀.seq = t.seq := (level_duel.mp hlevel').elim id (hk' t₀ ht₀)
  rw [seq_dress, seq_dress, hseq]
  exact Int64.lt_irrefl

/-- A stale delta that comes after the snapshot shows. -/
theorem exists_wrong_of_stale {t : Tick} (ht : t ∈ u.after) (hstale : ¬ u.snapshot.seq < t.seq) :
    ∃ f, levelAt true "1" (u.dressed f).arrived ≠ levelAt true "1" (u.dressed f).newer := by
  refine ⟨duel t.seq t.seq, ?_⟩
  have hnone : levelAt true "1" (u.dressed (duel t.seq t.seq)).newer = none := by
    rw [newer_dressed]
    apply levelAt_of_none
    intro t' ht' hlevel
    obtain ⟨t₀, ht₀, rfl⟩ := List.mem_map.mp ht'
    have hseq : t₀.seq = t.seq := (level_duel.mp hlevel).elim id id
    exact hstale (hseq ▸ (mem_newer.mp ht₀).2)
  rw [levelAt_arrived_duel ht fun t' _ h => h, hnone]
  exact Option.some_ne_none "1"

/-- A delta after the snapshot hides a newer one that came before it. -/
theorem exists_wrong_of_overtaken {b t : Tick} (hb : b ∈ u.before)
    (hpast : u.snapshot.seq < b.seq) (ht : t ∈ u.after) (hover : ¬ b.seq < t.seq) :
    ∃ f, levelAt true "1" (u.dressed f).arrived ≠ levelAt true "1" (u.dressed f).newer := by
  refine ⟨duel t.seq b.seq, ?_⟩
  have harrived : levelAt true "1" (u.dressed (duel t.seq b.seq)).arrived = some "1" :=
    levelAt_arrived_duel ht fun t' ht' h => absurd h.symm (seq_ne_of_mem hb ht')
  have hmem : dress (duel t.seq b.seq) b ∈ (u.dressed (duel t.seq b.seq)).newer := by
    rw [newer_dressed]
    exact List.mem_map_of_mem (mem_newer.mpr ⟨.inl hb, hpast⟩)
  have hnewer : levelAt true "1" (u.dressed (duel t.seq b.seq)).newer = some "2" := by
    rw [levelAt_of_newest (newer_sorted _) hmem (level_duel.mpr (.inr rfl)), size_duel,
      if_neg (seq_ne_of_mem hb ht)]
    intro t' ht' hlevel
    rw [newer_dressed] at ht'
    obtain ⟨t₀, -, rfl⟩ := List.mem_map.mp ht'
    rw [seq_dress, seq_dress]
    rcases level_duel.mp hlevel with hseq | hseq
    · rw [hseq]
      exact hover
    · rw [hseq]
      exact Int64.lt_irrefl
  rw [harrived, hnewer]
  decide

/-- **The book after the start is that of the deltas past the snapshot exactly when the last delta
to arrive for each level leaves it as the newest one does. Whatever the sides, prices and sizes of
the deltas, this is so exactly when no delta comes after the snapshot that is stale, or older than
one past the snapshot that came before it.** -/
theorem right_iff (u : StartUp) (exchange symbol : String) (coldBufSize : ℕ)
    (hroom : u.before.length < coldBufSize) :
    (u.Right (u.book exchange symbol coldBufSize) ↔
      ∀ buy price, levelAt buy price u.arrived = levelAt buy price u.newer) ∧
    ((∀ f, (u.dressed f).Right ((u.dressed f).book exchange symbol coldBufSize)) ↔
      u.Ordered) := by
  have hdressed : ∀ f, (u.dressed f).Right ((u.dressed f).book exchange symbol coldBufSize) ↔
      ∀ buy price, levelAt buy price (u.dressed f).arrived =
        levelAt buy price (u.dressed f).newer := by
    intro f
    apply right_iff_levelAt
    show (u.before.map (dress f)).length < coldBufSize
    rw [List.length_map]
    exact hroom
  refine ⟨u.right_iff_levelAt exchange symbol hroom, ?_, ?_⟩
  · intro h
    have hlevels : ∀ f, levelAt true "1" (u.dressed f).arrived =
        levelAt true "1" (u.dressed f).newer := fun f => (hdressed f).mp (h f) true "1"
    constructor
    · intro t ht
      by_contra hstale
      obtain ⟨f, hwrong⟩ := exists_wrong_of_stale ht hstale
      exact hwrong (hlevels f)
    · intro b hb hpast t ht
      by_contra hover
      obtain ⟨f, hwrong⟩ := exists_wrong_of_overtaken hb hpast ht hover
      exact hwrong (hlevels f)
  · intro h f
    rw [hdressed f, (h.dressed f).arrived]
    exact fun buy price => rfl

/-- A delta for one bid. -/
def bid (seq : Int64) : Tick :=
  { seq := seq, tsMs := 1000, price := "1", size := "1", side := "buy", level := 1 }

/-- The deltas 9 and 11 before the snapshot 10, and 12 after it. -/
theorem right_of_ordered : ∃ u : StartUp, u.before = [bid 9, bid 11] ∧ u.after = [bid 12] ∧
    ∀ f, (u.dressed f).Right ((u.dressed f).book "kraken" "BTC-USD" 4) := by
  let u : StartUp := {
    snapshot := { seq := 10, tsMs := 1000 }
    before := [bid 9, bid 11]
    after := [bid 12]
    deltas := by decide
    distinct := by decide
    below := by decide
    before_sorted := by decide
    after_sorted := by decide }
  refine ⟨u, rfl, rfl, (right_iff u "kraken" "BTC-USD" 4 (by decide)).2.mpr ⟨?_, ?_⟩⟩
  · show ∀ t ∈ [bid 12], 10 < t.seq
    decide
  · show ∀ b ∈ [bid 9, bid 11], 10 < b.seq → ∀ t ∈ [bid 12], b.seq < t.seq
    decide

/-- The delta 8 after the snapshot 10 is in the book. -/
theorem not_right_of_stale : ¬ ∀ (u : StartUp) (exchange symbol : String) (coldBufSize : ℕ),
    u.before.length < coldBufSize → u.Right (u.book exchange symbol coldBufSize) := by
  intro h
  let u : StartUp := {
    snapshot := { seq := 10, tsMs := 1000 }
    before := []
    after := [bid 8]
    deltas := by decide
    distinct := by decide
    below := by decide
    before_sorted := by decide
    after_sorted := by decide }
  have hroom : u.before.length < 4 := by decide
  have hright := (u.right_iff_levelAt "kraken" "BTC-USD" hroom).mp
    (h u "kraken" "BTC-USD" 4 hroom) true "1"
  have harrived : levelAt true "1" u.arrived = some "1" := by decide
  have hnewer : levelAt true "1" u.newer = none := by decide
  rw [harrived, hnewer] at hright
  exact Option.some_ne_none "1" hright

end StartUp

end MagnumOpus.Candle.OrderBook
