import MagnumOpus.Candle.Promotion

/-! # The order of the entries across a promotion

While every step is safe, what is left of the batch and of the group is what comes next
(`Slot.Ordered`), so the entries are handed on one by one in the order of the stream
(`exactlyOnce_of_safe`). -/

namespace MagnumOpus.Candle

open EventMachine ConsumerGroup

namespace Slot

variable {N : Numerics} {F : Features} {bestQuote : OrderBook → BestQuote}
  {depth : OrderBook → DepthSnapshot} {c : FullConsumer} {s s' : Slot}

/-! ### The order of the entries -/

/-- What is left of a batch, from `n` on, is what comes next. -/
def Fresh (n : ℕ) (batch : List ℕ) : Prop :=
  batch.filter (n ≤ ·) = List.range' n (batch.filter (n ≤ ·)).length

theorem fresh_range' {n q : ℕ} (hq : q ≤ n) (k : ℕ) : Fresh n (List.range' q k) ∧
    ((List.range' q k).filter (n ≤ ·)).length = q + k - n := by
  have hfilter : (List.range' q k).filter (n ≤ ·) = List.range' n (q + k - n) := by
    by_cases hk : n ≤ q + k
    · have hsplit : List.range' q k = List.range' q (n - q) ++ List.range' n (q + k - n) := by
        have happend := List.range'_append_1 (s := q) (m := n - q) (n := q + k - n)
        rw [show q + (n - q) = n by omega, show n - q + (q + k - n) = k by omega] at happend
        exact happend.symm
      rw [hsplit, List.filter_append, List.filter_eq_nil_iff.mpr, List.nil_append,
        List.filter_eq_self.mpr]
      · intro p hp
        exact decide_eq_true (List.mem_range'_1.mp hp).1
      · intro p hp
        have hlt := (List.mem_range'_1.mp hp).2
        simp only [decide_eq_true_eq]
        omega
    · rw [List.filter_eq_nil_iff.mpr, show q + k - n = 0 by omega, List.range'_zero]
      intro p hp
      have hlt := (List.mem_range'_1.mp hp).2
      simp only [decide_eq_true_eq]
      omega
  rw [Fresh, hfilter, List.length_range']
  exact ⟨rfl, rfl⟩

theorem fresh_cons_of_lt {n p : ℕ} (hp : p < n) (rest : List ℕ) :
    (Fresh n (p :: rest) ↔ Fresh n rest) ∧
      (p :: rest).filter (n ≤ ·) = rest.filter (n ≤ ·) := by
  have hfilter : (p :: rest).filter (n ≤ ·) = rest.filter (n ≤ ·) :=
    List.filter_cons_of_neg (by simpa using hp)
  rw [Fresh, Fresh, hfilter]
  exact ⟨Iff.rfl, rfl⟩

theorem fresh_cons_of_le {n p : ℕ} {rest : List ℕ} (h : Fresh n (p :: rest)) (hp : n ≤ p) :
    p = n ∧ Fresh (n + 1) rest ∧ (∀ q ∈ rest, q < n + 1 → q < n) ∧
      ((p :: rest).filter (n ≤ ·)).length = (rest.filter (n + 1 ≤ ·)).length + 1 := by
  have hfilter : (p :: rest).filter (n ≤ ·) = p :: rest.filter (n ≤ ·) :=
    List.filter_cons_of_pos (by simpa using hp)
  rw [Fresh, hfilter, List.length_cons, List.range'_succ] at h
  obtain ⟨heq, hrest⟩ := List.cons.inj h
  -- Nothing but the head is at `n`.
  have hmem : ∀ q ∈ rest, n ≤ q → n + 1 ≤ q := by
    intro q hq hle
    have hq' : q ∈ rest.filter (n ≤ ·) := List.mem_filter.mpr ⟨hq, by simpa using hle⟩
    rw [hrest] at hq'
    exact (List.mem_range'_1.mp hq').1
  have hsame : rest.filter (n + 1 ≤ ·) = rest.filter (n ≤ ·) := by
    refine List.filter_congr fun q hq => ?_
    rw [decide_eq_decide]
    exact ⟨fun h => by omega, hmem q hq⟩
  refine ⟨heq, ?_, fun q hq hlt => ?_, ?_⟩
  · rw [Fresh, hsame]
    exact hrest
  · by_contra hge
    have := hmem q hq (by omega)
    omega
  · rw [hfilter, List.length_cons, hsame]

/-- An entry with this position has been seen since the last bar close. -/
def Seen (s : Slot) (p : ℕ) : Prop :=
  ∃ m, s.stream.entries[p]? = some m ∧ m.id ∈ s.c.seenIDs

/-- The shadow mode reads on where it has ended. -/
structure Warm (s : Slot) : Prop where
  batch : ∀ p ∈ s.batch, s.upTo ≤ p
  trimmed : s.stream.trimmed ≤ s.unread
  cursor : after s.stream s.c.xreadCursor = s.upTo ∨
    after s.stream s.c.xreadCursor = 0 ∧ s.handled = []
  reading : s.phase = .reading → s.batch = []

/-- What the active slot has seen is what it has handled, and is all that comes again. -/
structure Promoted (s : Slot) : Prop where
  known : ∀ id ∈ s.c.seenIDs, ∃ p < s.upTo, ∃ m, s.stream.entries[p]? = some m ∧ m.id = id
  redelivered : ∀ p, s.stream.next ≤ p → p < s.upTo → s.Seen p
  reached : s.phase = .active → s.stream.next ≤ s.unread

/-- What is to come is in order. -/
structure Ready (s : Slot) : Prop where
  fresh : Fresh s.upTo s.batch
  seen : ∀ p ∈ s.batch, p < s.upTo → s.Seen p
  warm : s.phase.Warming → s.Warm
  promoted : ¬ s.phase.Warming → s.Promoted

/-- What holds of a run whose steps are safe. -/
structure Ordered (s : Slot) : Prop where
  inOrder : s.handled = List.range' s.base s.handled.length
  upTo_le : s.upTo ≤ s.stream.entries.length
  ready : s.c.exited = false → s.Ready

/-- Where only the stream and what `Promote` knows change. -/
structure SameConsumer (s s' : Slot) : Prop where
  seenIDs : s'.c.seenIDs = s.c.seenIDs
  xreadCursor : s'.c.xreadCursor = s.c.xreadCursor
  exited : s'.c.exited = s.c.exited
  phase : s'.phase = s.phase
  batch : s'.batch = s.batch
  base : s'.base = s.base
  history : s'.history = s.history
  entries : s.stream.entries <+: s'.stream.entries
  after : after s.stream s.c.xreadCursor ≤ s.stream.entries.length →
    after s'.stream s.c.xreadCursor = after s.stream s.c.xreadCursor
  trimmed : s.c.exited = false → s.phase.Warming → s.stream.trimmed ≤ s.unread →
    s'.stream.trimmed ≤ s.unread
  next_ge : ¬ s.phase.Warming → s.stream.next ≤ s'.stream.next
  next_le : s.c.exited = false → s.phase = .active → s.stream.next ≤ s.unread →
    s'.stream.next ≤ s.unread

theorem getElem?_of_prefix {α : Type*} {l l' : List α} (h : l <+: l') {p : ℕ} {a : α}
    (hp : l[p]? = some a) : l'[p]? = some a := by
  obtain ⟨t, rfl⟩ := h
  rw [List.getElem?_append_left (List.getElem?_eq_some_iff.mp hp).1]
  exact hp

theorem SameConsumer.upTo (h : SameConsumer s s') : s'.upTo = s.upTo := by
  rw [Slot.upTo, Slot.upTo, handled, handled, h.base, h.history]

theorem SameConsumer.unread (h : SameConsumer s s') : s'.unread = s.unread := by
  rw [Slot.unread, Slot.unread, h.upTo, h.batch]

theorem SameConsumer.seen (h : SameConsumer s s') {p : ℕ} (hp : s.Seen p) : s'.Seen p := by
  obtain ⟨m, hm, hid⟩ := hp
  exact ⟨m, getElem?_of_prefix h.entries hm, h.seenIDs ▸ hid⟩

/-- What is to come stays in order. -/
theorem Ordered.of_sameConsumer (ho : s.Ordered) (h : SameConsumer s s') : s'.Ordered := by
  have hhandled : s'.handled = s.handled := by rw [handled, handled, h.history]
  refine ⟨?_, ?_, fun hrun => ?_⟩
  · rw [hhandled, h.base]
    exact ho.inOrder
  · rw [h.upTo]
    exact ho.upTo_le.trans h.entries.length_le
  have hrun' : s.c.exited = false := h.exited ▸ hrun
  have hr := ho.ready hrun'
  refine ⟨?_, fun p hp hlt => ?_, fun hw => ?_, fun hw => ?_⟩
  · rw [h.upTo, h.batch]
    exact hr.fresh
  · rw [h.batch] at hp
    rw [h.upTo] at hlt
    exact h.seen (hr.seen p hp hlt)
  · rw [h.phase] at hw
    have hwarm := hr.warm hw
    refine ⟨?_, ?_, ?_, ?_⟩
    · rw [h.batch, h.upTo]
      exact hwarm.batch
    · rw [h.unread]
      exact h.trimmed hrun' hw hwarm.trimmed
    · have hle : after s.stream s.c.xreadCursor ≤ s.stream.entries.length := by
        have hupTo := ho.upTo_le
        rcases hwarm.cursor with hat | ⟨hzero, -⟩ <;> omega
      rw [h.xreadCursor, h.after hle, h.upTo, hhandled]
      exact hwarm.cursor
    · rw [h.phase, h.batch]
      exact hwarm.reading
  · rw [h.phase] at hw
    have hpro := hr.promoted hw
    refine ⟨fun id hid => ?_, fun p hp hlt => ?_, fun hactive => ?_⟩
    · rw [h.seenIDs] at hid
      obtain ⟨p, hp, m, hm, heq⟩ := hpro.known id hid
      rw [h.upTo]
      exact ⟨p, hp, m, getElem?_of_prefix h.entries hm, heq⟩
    · rw [h.upTo] at hlt
      exact h.seen (hpro.redelivered p ((h.next_ge hw).trans hp) hlt)
    · rw [h.phase] at hactive
      rw [h.unread]
      exact h.next_le hrun' hactive (hpro.reached hactive)

theorem sameConsumer_stream (stream : Stream Message)
    (hentries : stream.entries = s.stream.entries)
    (htrimmed : s.c.exited = false → s.phase.Warming → s.stream.trimmed ≤ s.unread →
      stream.trimmed ≤ s.unread)
    (hnext : ¬ s.phase.Warming → s.stream.next ≤ stream.next ∧
      (s.c.exited = false → s.phase = .active → s.stream.next ≤ s.unread →
        stream.next ≤ s.unread)) :
    SameConsumer s { s with stream } := by
  refine ⟨rfl, rfl, rfl, rfl, rfl, rfl, rfl, ?_, fun _ => ?_, htrimmed, fun hw => (hnext hw).1,
    fun hrun hactive => (hnext ?_).2 hrun hactive⟩
  · show s.stream.entries <+: stream.entries
    rw [hentries]
  · show after stream _ = after s.stream _
    rw [after, after, hentries]
  · rw [hactive]
    exact not_warming_active

theorem sameConsumer_add (s : Slot) (m : Message) : SameConsumer s (s.add m) := by
  unfold Slot.add
  split
  · exact sameConsumer_stream s.stream rfl (fun _ _ h => h) fun _ => ⟨le_refl _, fun _ _ h => h⟩
  · refine ⟨rfl, rfl, rfl, rfl, rfl, rfl, rfl, ⟨[m], rfl⟩, fun hle => ?_, fun _ _ h => h,
      fun _ => le_refl _, fun _ _ h => h⟩
    -- The entry that was read last is there already.
    unfold after at hle ⊢
    split
    · rfl
    next hid =>
      rw [if_neg hid] at hle
      have hmem : s.c.xreadCursor ∈ s.stream.entries.map Message.id :=
        List.idxOf_lt_length_iff.mp (by rw [List.length_map]; omega)
      rw [Stream.entries_add, List.map_append, List.idxOf_append_of_mem hmem]

/-- Until the flag is cleared the consumer is in the shadow loop. -/
theorem Inv.warming (h : s.Inv N F bestQuote depth c) (hp : s.promotion ≠ .done) :
    s.phase.Warming := by
  by_contra hw
  exact hp (h.mode (h.promoted hw))

theorem Inv.origin (h : s.Inv N F bestQuote depth c) (hw : ¬ s.phase.Warming) :
    s.stream.origin ≠ none :=
  h.grouped (.inl (h.mode (h.promoted hw)))

theorem sameConsumer_setCursor (hw : s.phase.Warming) (id : String) (create setID : CallEnd) :
    SameConsumer s (s.setCursor id create setID) := by
  have hactive : s.phase ≠ .active := fun h => not_warming_active (h ▸ hw)
  have hstream : ∀ (stream : Stream Message) (pr : Promotion),
      stream.entries = s.stream.entries → stream.trimmed = s.stream.trimmed →
      SameConsumer s { s with stream, promotion := pr } := by
    intro stream pr hentries htrimmed
    refine ⟨rfl, rfl, rfl, rfl, rfl, rfl, rfl, ?_, fun _ => ?_, fun _ _ h => ?_,
      fun h => absurd hw h, fun _ h => absurd h hactive⟩
    · show s.stream.entries <+: stream.entries
      rw [hentries]
    · show after stream _ = after s.stream _
      rw [after, after, hentries]
    · exact htrimmed.le.trans h
  unfold Slot.setCursor
  dsimp only
  split
  · cases create.done with
    | true => exact hstream _ _ rfl rfl
    | false => exact hstream _ _ rfl rfl
  · split
    · exact hstream _ _ rfl rfl
    · cases setID.done with
      | true => exact hstream _ _ rfl rfl
      | false => exact hstream _ _ rfl rfl

theorem Ordered.of_exited (ho : s.Ordered) (hbase : s'.base = s.base)
    (hhandled : s'.handled = s.handled) (hentries : s'.stream.entries = s.stream.entries)
    (hexited : s'.c.exited = true) : s'.Ordered := by
  have hupTo : s'.upTo = s.upTo := by rw [Slot.upTo, Slot.upTo, hbase, hhandled]
  refine ⟨?_, ?_, fun hrun => absurd (hexited.symm.trans hrun) Bool.true_eq_false.mp⟩
  · rw [hhandled, hbase]
    exact ho.inOrder
  · rw [hupTo, hentries]
    exact ho.upTo_le

/-- A step between two batches that hands nothing on. -/
theorem Ordered.between (ho : s.Ordered) (hbase : s'.base = s.base)
    (hhandled : s'.handled = s.handled) (hentries : s'.stream.entries = s.stream.entries)
    (hfresh : Fresh s.upTo s'.batch) (hseen : ∀ p ∈ s'.batch, p < s.upTo → s'.Seen p)
    (hwarm : s'.phase.Warming → s'.Warm) (hpromoted : ¬ s'.phase.Warming → s'.Promoted) :
    s'.Ordered := by
  have hupTo : s'.upTo = s.upTo := by rw [Slot.upTo, Slot.upTo, hbase, hhandled]
  refine ⟨?_, ?_, fun _ => ⟨hupTo ▸ hfresh, hupTo ▸ hseen, hwarm, hpromoted⟩⟩
  · rw [hhandled, hbase]
    exact ho.inOrder
  · rw [hupTo, hentries]
    exact ho.upTo_le

theorem fresh_nil (n : ℕ) : Fresh n [] := rfl

theorem Ordered.between_nil (ho : s.Ordered) (hbase : s'.base = s.base)
    (hhandled : s'.handled = s.handled) (hentries : s'.stream.entries = s.stream.entries)
    (hbatch : s'.batch = []) (hwarm : s'.phase.Warming → s'.Warm)
    (hpromoted : ¬ s'.phase.Warming → s'.Promoted) : s'.Ordered := by
  refine ho.between hbase hhandled hentries ?_ (fun p hp => ?_) hwarm hpromoted
  · rw [hbatch]
    exact fresh_nil _
  · rw [hbatch] at hp
    exact absurd hp List.not_mem_nil

theorem Ordered.between_range (ho : s.Ordered) (hbase : s'.base = s.base)
    (hhandled : s'.handled = s.handled) (hentries : s'.stream.entries = s.stream.entries)
    {k : ℕ} (hbatch : s'.batch = List.range' s.upTo k)
    (hwarm : (∀ p ∈ s'.batch, s.upTo ≤ p) → s'.phase.Warming → s'.Warm)
    (hpromoted : ¬ s'.phase.Warming → s'.Promoted) : s'.Ordered := by
  have hle : ∀ p ∈ s'.batch, s.upTo ≤ p := by
    rw [hbatch]
    exact fun p hp => (List.mem_range'_1.mp hp).1
  refine ho.between hbase hhandled hentries ?_ (fun p hp hlt => ?_) (hwarm hle) hpromoted
  · rw [hbatch]
    exact (fresh_range' (le_refl _) _).1
  · exact absurd (hle p hp) (not_le.mpr hlt)

theorem unread_of_batch (hbatch : s.batch = []) : s.unread = s.upTo := by
  rw [unread, hbatch]
  rfl

theorem ordered_check (ho : s.Ordered) (hrun : s.c.exited = false) (hphase : s.phase = .shadow)
    (hbatch : s.batch = []) (hsafe : s.shadowMode = false → s.upTo ≤ s.stream.next) :
    s.check.Ordered := by
  have hwarm := (ho.ready hrun).warm (.inl hphase)
  unfold check
  split
  · exact ho.between_nil rfl rfl rfl hbatch
      (fun _ => ⟨hwarm.batch, hwarm.trimmed, hwarm.cursor, fun _ => hbatch⟩)
      fun hw => absurd (.inr rfl) hw
  next hmode =>
    have hnext := hsafe (Bool.eq_false_iff.mpr hmode)
    have hhandled : (s.history ++ [Act.promoted]).filterMap Act.position = s.handled := by
      rw [List.filterMap_append]
      exact List.append_nil _
    refine ho.between_nil rfl hhandled rfl hbatch
      (fun hw => absurd hw (not_warming_claiming _)) fun _ => ?_
    refine ⟨fun id hid => absurd hid List.not_mem_nil, fun p hp hlt => ?_, fun h => by cases h⟩
    -- The group delivers nothing again that the shadow mode has handled.
    have hupTo : s.base + ((s.history ++ [Act.promoted]).filterMap Act.position).length =
        s.upTo := by rw [hhandled, Slot.upTo]
    have hlt' : p < s.upTo := hupTo ▸ hlt
    have hle : s.stream.next ≤ p := hp
    omega

theorem ordered_xread (h : s.Inv N F bestQuote depth c) (ho : s.Ordered)
    (hrun : s.c.exited = false) (hphase : s.phase = .reading) (how : ReadEnd) :
    (s.xread how).Ordered := by
  have hwarm := (ho.ready hrun).warm (.inr hphase)
  have hbatch := hwarm.reading hphase
  have htrimmed := hwarm.trimmed
  rw [unread_of_batch hbatch] at htrimmed
  unfold xread
  cases how with
  | ok =>
      -- What is read starts where the shadow mode has ended.
      have hstart : max (after s.stream s.c.xreadCursor) s.stream.trimmed = s.upTo := by
        have hbase := h.base_le
        rcases hwarm.cursor with hat | ⟨hzero, hnone⟩
        · omega
        · have hupTo : s.upTo = s.base := by rw [Slot.upTo, hnone, List.length_nil, add_zero]
          omega
      have hread : s.stream.range (after s.stream s.c.xreadCursor) 100 =
          List.range' s.upTo (min 100 (s.stream.entries.length - s.upTo)) := by
        rw [Stream.range, hstart]
      exact ho.between_range rfl rfl rfl hread
        (fun hle _ => ⟨hle, htrimmed.trans (Nat.le_add_right _ _), hwarm.cursor,
          fun h => by cases h⟩)
        fun hw => absurd (.inl rfl) hw
  | timeout =>
      exact ho.between_nil rfl rfl rfl hbatch
        (fun _ => ⟨hwarm.batch, hwarm.trimmed, hwarm.cursor, fun h => by cases h⟩)
        fun hw => absurd (.inl rfl) hw
  | error => exact ho.of_exited rfl rfl rfl rfl

theorem ordered_claim (ho : s.Ordered) (hrun : s.c.exited = false) {start : ℕ}
    (hphase : s.phase = .claiming (some start)) (hbatch : s.batch = []) (how : CallEnd)
    (hsafe : how.succeeds = true → (s.pendingFrom start).take 1000 =
      List.range' s.upTo ((s.pendingFrom start).take 1000).length) :
    (s.claim start how).Ordered := by
  have hw : ¬ s.phase.Warming := hphase ▸ not_warming_claiming _
  have hpromoted := (ho.ready hrun).promoted hw
  unfold claim
  split
  next hok =>
    exact ho.between_range rfl rfl rfl (hsafe hok)
      (fun _ hw' => absurd hw' (not_warming_claiming _))
      fun _ => ⟨hpromoted.known, hpromoted.redelivered, fun h => by cases h⟩
  · exact ho.between_nil rfl rfl rfl hbatch
      (fun hw' => absurd hw' (not_warming_claiming _))
      fun _ => ⟨hpromoted.known, hpromoted.redelivered, fun h => by cases h⟩

theorem ordered_connect (h : s.Inv N F bestQuote depth c) (ho : s.Ordered)
    (hrun : s.c.exited = false) (hphase : s.phase = .claiming none) (hbatch : s.batch = [])
    (create : CallEnd) (hsafe : create.succeeds = true → s.stream.next ≤ s.upTo) :
    (s.connect create).Ordered := by
  have hw : ¬ s.phase.Warming := hphase ▸ not_warming_claiming _
  have hpromoted := (ho.ready hrun).promoted hw
  have hstream : (if create.done then s.stream.createGroup s.stream.entries.length
      else s.stream) = s.stream := by
    rw [Stream.createGroup_of_origin (h.origin hw), ite_self]
  unfold connect
  dsimp only
  rw [hstream]
  split
  next hok =>
    exact ho.between_nil rfl rfl rfl hbatch (fun hw' => absurd hw' not_warming_active)
      fun _ => ⟨hpromoted.known, hpromoted.redelivered,
        fun _ => (hsafe hok).trans (Nat.le_add_right _ _)⟩
  · exact ho.of_exited rfl rfl rfl rfl

theorem ordered_readGroup (h : s.Inv N F bestQuote depth c) (ho : s.Ordered)
    (hrun : s.c.exited = false) (hphase : s.phase = .active) (hbatch : s.batch = [])
    (how : ReadEnd)
    (hsafe : how = .timeout true → (s.stream.deliver 100).next ≤ s.upTo) :
    (s.readGroup how).Ordered := by
  have hw : ¬ s.phase.Warming := hphase ▸ not_warming_active
  have hpromoted := (ho.ready hrun).promoted hw
  have hnext := Stream.next_deliver (n := 100) (h.origin hw)
  have hreached := hpromoted.reached hphase
  rw [unread_of_batch hbatch] at hreached
  unfold readGroup
  dsimp only
  cases how with
  | ok =>
      obtain ⟨hfresh, hlength⟩ := fresh_range' hreached (s.stream.delivered 100).length
      have hread : s.stream.delivered 100 =
          List.range' s.stream.next (s.stream.delivered 100).length := by
        rw [Stream.length_delivered]
        rfl
      rw [← hread] at hfresh hlength
      refine ho.between rfl rfl rfl hfresh (fun p hp hlt => ?_) (fun hw' => absurd hw' hw)
        fun _ => ?_
      · exact hpromoted.redelivered p (Stream.mem_delivered.mp hp).1 hlt
      · refine ⟨hpromoted.known, fun p hp hlt => hpromoted.redelivered p ?_ hlt, fun _ => ?_⟩
        · have hp' : (s.stream.deliver 100).next ≤ p := hp
          omega
        · show (s.stream.deliver 100).next ≤
            s.upTo + ((s.stream.delivered 100).filter (s.upTo ≤ ·)).length
          omega
  | timeout d =>
      refine ho.between_nil rfl rfl (by cases d <;> rfl) hbatch (fun hw' => absurd hw' hw)
        fun _ => ?_
      cases d with
      | false => exact ⟨hpromoted.known, hpromoted.redelivered, hpromoted.reached⟩
      | true =>
          refine ⟨hpromoted.known, fun p hp hlt => hpromoted.redelivered p ?_ hlt, fun _ => ?_⟩
          · have hp' : (s.stream.deliver 100).next ≤ p := hp
            omega
          · exact (hsafe rfl).trans (Nat.le_add_right _ _)
  | error d => exact ho.of_exited rfl rfl (by cases d <;> rfl) rfl

theorem ordered_barClose (ho : s.Ordered) (hrun : s.c.exited = false) (hphase : s.phase = .active)
    (hbatch : s.batch = []) (calls : Calls) (nowMs : Int64) (hsafe : s.upTo ≤ s.stream.next) :
    (s.barClose F depth calls nowMs).Ordered := by
  have hw : ¬ s.phase.Warming := hphase ▸ not_warming_active
  have hpromoted := (ho.ready hrun).promoted hw
  have hhandled : (s.history ++ [Act.barClose calls nowMs]).filterMap Act.position = s.handled := by
    rw [List.filterMap_append]
    exact List.append_nil _
  have hupTo : (s.barClose F depth calls nowMs).upTo = s.upTo := by
    rw [Slot.upTo, Slot.upTo, handled]
    exact congrArg (fun l : List ℕ => s.base + l.length) hhandled
  refine ho.between_nil rfl hhandled rfl hbatch (fun hw' => absurd hw' hw) fun _ => ?_
  refine ⟨fun id hid => absurd hid List.not_mem_nil, fun p hp hlt => ?_, fun _ => ?_⟩
  · rw [hupTo] at hlt
    have hle : s.stream.next ≤ p := hp
    omega
  · have hreached := hpromoted.reached hphase
    rw [unread_of_batch hbatch] at hreached
    rw [unread_of_batch (s := s.barClose F depth calls nowMs) hbatch, hupTo]
    exact hreached

theorem Ordered.took (ho : s.Ordered) (hbase : s'.base = s.base)
    (hhandled : s'.handled = s.handled ++ [s.upTo])
    (hentries : s'.stream.entries = s.stream.entries)
    (hlt : s.upTo < s.stream.entries.length)
    (hready : s'.upTo = s.upTo + 1 → s'.c.exited = false → s'.Ready) : s'.Ordered := by
  have hlength : s'.handled.length = s.handled.length + 1 := by
    rw [hhandled, List.length_append, List.length_singleton]
  have hupTo : s'.upTo = s.upTo + 1 := by
    rw [Slot.upTo, Slot.upTo, hbase, hlength, add_assoc]
  refine ⟨?_, ?_, hready hupTo⟩
  · rw [hlength, List.range'_1_concat, hbase, ← ho.inOrder]
    exact hhandled
  · rw [hupTo, hentries]
    exact hlt

theorem after_id (h : s.Inv N F bestQuote depth c) {p : ℕ} {m : Message}
    (hm : s.stream.entries[p]? = some m) : after s.stream m.id = p + 1 := by
  obtain ⟨hlt, rfl⟩ := List.getElem?_eq_some_iff.mp hm
  have hlt' : p < (s.stream.entries.map Message.id).length := by rwa [List.length_map]
  have hid : s.stream.entries[p].id = (s.stream.entries.map Message.id)[p] :=
    (List.getElem_map Message.id).symm
  rw [after, if_neg (h.ids _ (List.getElem_mem hlt)), hid, h.nodup.idxOf_getElem p hlt']

theorem ordered_handleShadow (h : s.Inv N F bestQuote depth c) (ho : s.Ordered)
    (hrun : s.c.exited = false) (hw : s.phase.Warming) {p : ℕ} {rest : List ℕ} {m : Message}
    (hbatch : s.batch = p :: rest) (hm : s.stream.entries[p]? = some m) :
    (s.handleShadow N bestQuote depth p rest m).Ordered := by
  have hr := ho.ready hrun
  have hwarm := hr.warm hw
  have hfresh := hr.fresh
  rw [hbatch] at hfresh
  obtain ⟨rfl, hrest, hbehind, hlength⟩ :=
    fresh_cons_of_le hfresh (hwarm.batch p (hbatch ▸ List.mem_cons_self))
  have hbatch' : ∀ q ∈ rest, s.upTo + 1 ≤ q := by
    intro q hq
    have hle := hwarm.batch q (hbatch ▸ List.mem_cons_of_mem _ hq)
    by_contra hlt
    have := hbehind q hq (by omega)
    omega
  have htrimmed := hwarm.trimmed
  rw [Slot.unread, hbatch, hlength] at htrimmed
  refine ho.took rfl ?_ rfl (List.getElem?_eq_some_iff.mp hm).1 fun hupTo _ => ?_
  · show (s.history ++ [Act.entry s.upTo m]).filterMap Act.position = _
    rw [List.filterMap_append]
    rfl
  refine ⟨hupTo ▸ hrest, fun q hq hlt => ?_, fun _ => ⟨?_, ?_, .inl ?_, ?_⟩,
    fun hw' => absurd hw hw'⟩
  · rw [hupTo] at hlt
    exact absurd (hbatch' q hq) (not_le.mpr hlt)
  · rw [hupTo]
    exact hbatch'
  · rw [Slot.unread, hupTo]
    show s.stream.trimmed ≤ s.upTo + 1 + (rest.filter (s.upTo + 1 ≤ ·)).length
    omega
  · rw [hupTo]
    show after s.stream (s.c.handleShadowMessage N bestQuote depth m).xreadCursor = _
    rw [FullConsumer.xreadCursor_handleShadowMessage]
    exact after_id h hm
  · intro hreading
    exact absurd (hbatch.symm.trans (hwarm.reading hreading)) (List.cons_ne_nil _ _)

theorem Promoted.unseen (hp : s.Promoted) (h : s.Inv N F bestQuote depth c) {p : ℕ} {m : Message}
    (hm : s.stream.entries[p]? = some m) (hle : s.upTo ≤ p) : m.id ∉ s.c.seenIDs := by
  intro hid
  obtain ⟨q, hq, m', hm', heq⟩ := hp.known _ hid
  have hp' := after_id h hm
  have hq' := after_id h hm'
  rw [heq] at hq'
  omega

/-- What the handling of an entry after the promotion leaves alone. -/
structure Handles (s : Slot) (rest : List ℕ) (s' : Slot) : Prop where
  base : s'.base = s.base
  phase : s'.phase = s.phase
  entries : s'.stream.entries = s.stream.entries
  next : s'.stream.next = s.stream.next
  batch : s'.c.exited = false → s'.batch = rest

theorem handles_handleActive (p : ℕ) (rest : List ℕ) (m : Message) (xack : CallEnd) (calls : Calls)
    (nowMs : Int64) :
    s.Handles rest (s.handleActive N F bestQuote depth p rest m xack calls nowMs) := by
  refine ⟨rfl, rfl, entries_acked s.stream p xack.done, ?_, fun hrun => if_neg ?_⟩
  · show (if xack.done then s.stream.ack p else s.stream).next = s.stream.next
    cases xack.done with
    | true => exact Stream.next_ack
    | false => rfl
  · rintro ⟨hphase, hexited⟩
    unfold Slot.handleActive at hrun
    dsimp only at hrun
    rw [if_pos hphase] at hrun
    exact absurd (hexited.symm.trans hrun) Bool.true_eq_false.mp

theorem Ordered.taken (ho : s.Ordered) (hrun : s.c.exited = false) (hw : ¬ s.phase.Warming)
    {rest : List ℕ} {m : Message} (hbatch : s.batch = s.upTo :: rest)
    (hm : s.stream.entries[s.upTo]? = some m) (h : s.Handles rest s')
    (hhistory : s'.history = s.history ++ [.entry s.upTo m])
    (hseenIDs : s'.c.seenIDs = m.id :: s.c.seenIDs) : s'.Ordered := by
  have hr := ho.ready hrun
  have hpromoted := hr.promoted hw
  have hfresh := hr.fresh
  rw [hbatch] at hfresh
  obtain ⟨-, hrest, hbehind, hlength⟩ := fresh_cons_of_le hfresh (le_refl _)
  have hseen : ∀ q, s.Seen q → s'.Seen q := by
    rintro q ⟨m', hm', hid⟩
    exact ⟨m', h.entries ▸ hm', hseenIDs ▸ List.mem_cons_of_mem _ hid⟩
  have hlast : s'.Seen s.upTo := ⟨m, h.entries ▸ hm, hseenIDs ▸ List.mem_cons_self⟩
  refine ho.took h.base ?_ h.entries (List.getElem?_eq_some_iff.mp hm).1 fun hupTo hrun' => ?_
  · rw [handled, hhistory, List.filterMap_append]
    rfl
  have hbatch' := h.batch hrun'
  refine ⟨?_, fun q hq hlt => ?_, fun hw' => absurd (h.phase ▸ hw') hw, fun _ => ?_⟩
  · rw [hupTo, hbatch']
    exact hrest
  · rw [hupTo] at hlt
    rw [hbatch'] at hq
    exact hseen q (hr.seen q (hbatch ▸ List.mem_cons_of_mem _ hq) (hbehind q hq hlt))
  · refine ⟨fun id hid => ?_, fun q hq hlt => ?_, fun hactive => ?_⟩
    · rw [hupTo, h.entries]
      rw [hseenIDs] at hid
      rcases List.mem_cons.mp hid with rfl | hid
      · exact ⟨s.upTo, Nat.lt_succ_self _, m, hm, rfl⟩
      · obtain ⟨q, hq, hm'⟩ := hpromoted.known id hid
        exact ⟨q, Nat.lt_succ_of_lt hq, hm'⟩
    · rw [hupTo] at hlt
      rw [h.next] at hq
      rcases Nat.lt_succ_iff_lt_or_eq.mp hlt with hlt | rfl
      · exact hseen q (hpromoted.redelivered q hq hlt)
      · exact hlast
    · have hreached := hpromoted.reached (h.phase ▸ hactive)
      rw [Slot.unread, hbatch, hlength] at hreached
      rw [h.next, Slot.unread, hupTo, hbatch']
      omega

theorem Ordered.leftOut (ho : s.Ordered) (hrun : s.c.exited = false) (hw : ¬ s.phase.Warming)
    {rest : List ℕ} (h : s.Handles rest s') (hhistory : s'.history = s.history)
    (hseenIDs : s'.c.seenIDs = s.c.seenIDs)
    (hfresh : Fresh s.upTo rest ∧ (∀ q ∈ rest, q < s.upTo → s.Seen q) ∧
      (s.phase = .active → s.unread ≤ s.upTo + (rest.filter (s.upTo ≤ ·)).length)) :
    s'.Ordered := by
  have hpromoted := (ho.ready hrun).promoted hw
  have hhandled : s'.handled = s.handled := by rw [handled, handled, hhistory]
  have hupTo : s'.upTo = s.upTo := by rw [Slot.upTo, Slot.upTo, h.base, hhandled]
  have hseen : ∀ q, s.Seen q → s'.Seen q := by
    rintro q ⟨m', hm', hid⟩
    exact ⟨m', h.entries ▸ hm', hseenIDs ▸ hid⟩
  refine ⟨?_, ?_, fun hrun' => ?_⟩
  · rw [hhandled, h.base]
    exact ho.inOrder
  · rw [hupTo, h.entries]
    exact ho.upTo_le
  have hbatch' := h.batch hrun'
  refine ⟨?_, fun q hq hlt => ?_, fun hw' => absurd (h.phase ▸ hw') hw, fun _ => ?_⟩
  · rw [hupTo, hbatch']
    exact hfresh.1
  · rw [hupTo] at hlt
    rw [hbatch'] at hq
    exact hseen q (hfresh.2.1 q hq hlt)
  · refine ⟨fun id hid => ?_, fun q hq hlt => ?_, fun hactive => ?_⟩
    · rw [hupTo, h.entries]
      exact hpromoted.known id (hseenIDs ▸ hid)
    · rw [hupTo] at hlt
      rw [h.next] at hq
      exact hseen q (hpromoted.redelivered q hq hlt)
    · rw [h.phase] at hactive
      rw [h.next, Slot.unread, hupTo, hbatch']
      exact (hpromoted.reached hactive).trans (hfresh.2.2 hactive)

theorem ordered_handleActive (h : s.Inv N F bestQuote depth c) (ho : s.Ordered)
    (hrun : s.c.exited = false) (hw : ¬ s.phase.Warming) {p : ℕ} {rest : List ℕ} {m : Message}
    (hbatch : s.batch = p :: rest) (hm : s.stream.entries[p]? = some m) (xack : CallEnd)
    (calls : Calls) (nowMs : Int64)
    (hclaims : s.phase ≠ .active → m.id ∈ s.c.seenIDs ∨ s.c.dispatches m (calls.acked xack) ∨
      xack.succeeds = false ∧ rest = [])
    (hactive : s.phase = .active → m.id ∈ s.c.seenIDs ∨
      s.c.dropsGap m (calls.acked xack) = false) :
    (s.handleActive N F bestQuote depth p rest m xack calls nowMs).Ordered := by
  have hr := ho.ready hrun
  have hhandles : s.Handles rest (s.handleActive N F bestQuote depth p rest m xack calls nowMs) :=
    handles_handleActive p rest m xack calls nowMs
  have hfresh := hr.fresh
  rw [hbatch] at hfresh
  have hseenIDs : ∀ c' : FullConsumer,
      (if s.phase = .active then c' else { c' with exited := false }).seenIDs = c'.seenIDs := by
    intro c'
    split <;> rfl
  by_cases hd : s.c.dispatches m (calls.acked xack)
  · -- The entry comes next, as it has not been seen.
    have hle : s.upTo ≤ p := by
      by_contra hlt
      obtain ⟨m', hm', hid⟩ := hr.seen p (hbatch ▸ List.mem_cons_self) (not_le.mp hlt)
      rw [hm] at hm'
      exact (of_decide_eq_true hd).1 (Option.some.inj hm' ▸ hid)
    obtain ⟨rfl, -⟩ := fresh_cons_of_le hfresh hle
    have hdisp : FullConsumer.Dispatched s.c m
        (s.c.handleMessage N F bestQuote depth m (calls.acked xack) nowMs).1
        (s.c.handleShadowMessage N bestQuote depth m) :=
      FullConsumer.dispatched_handleMessage (.refl s.c) nowMs hd
    exact ho.taken hrun hw hbatch hm hhandles (if_pos hd)
      ((hseenIDs _).trans hdisp.seenIDs)
  have hpassed : FullConsumer.Passed s.c m (calls.acked xack)
      (s.c.handleMessage N F bestQuote depth m (calls.acked xack) nowMs).1 :=
    FullConsumer.passed_handleMessage nowMs hd
  by_cases hlt : p < s.upTo
  · -- The entry has come again.
    obtain ⟨m', hm', hid⟩ := hr.seen p (hbatch ▸ List.mem_cons_self) hlt
    rw [hm] at hm'
    obtain rfl := Option.some.inj hm'
    obtain ⟨hiff, hfilter⟩ := fresh_cons_of_lt hlt rest
    refine ho.leftOut hrun hw hhandles (if_neg hd)
      ((hseenIDs _).trans (congrArg FullConsumer.seenIDs (hpassed.seen hid)))
      ⟨hiff.mp hfresh, fun q hq => hr.seen q (hbatch ▸ List.mem_cons_of_mem _ hq), fun _ => ?_⟩
    rw [Slot.unread, hbatch, hfilter]
  · have hnew : m.id ∉ s.c.seenIDs := (hr.promoted hw).unseen h hm (not_lt.mp hlt)
    by_cases hphase : s.phase = .active
    · -- An error ends the run.
      have hexited := (hpassed.ended hnew).resolve_right
        (Bool.eq_false_iff.mp ((hactive hphase).resolve_left hnew))
      refine ho.of_exited rfl ?_ hhandles.entries ?_
      · show List.filterMap _ (if _ then _ else _) = _
        rw [if_neg hd]
        rfl
      · show (if s.phase = .active then _ else _ : FullConsumer).exited = true
        rw [if_pos hphase]
        exact hexited
    · -- The last entry of a claim is not acknowledged, and is left to the group.
      obtain ⟨hxack, rfl⟩ := ((hclaims hphase).resolve_left hnew).resolve_left hd
      exact ho.leftOut hrun hw hhandles (if_neg hd)
        ((hseenIDs _).trans (hpassed.unacked hnew hxack))
        ⟨fresh_nil _, fun _ hq => absurd hq List.not_mem_nil, fun hp => absurd hp hphase⟩

theorem ordered_run (h : s.Inv N F bestQuote depth c) (ho : s.Ordered) (hrun : s.c.exited = false)
    (e : SlotEvent) (hsafe : s.Safe e) : (s.run N F bestQuote depth e).Ordered := by
  cases e with
  | check =>
      unfold run
      dsimp only
      split
      next hat => exact ordered_check ho hrun hat.1 hat.2 (hsafe hrun hat.1 hat.2)
      · exact ho
  | xread how =>
      unfold run
      dsimp only
      split
      next hat => exact ordered_xread h ho hrun hat how
      · exact ho
  | claim how =>
      unfold run
      dsimp only
      cases hstart : s.claimStart with
      | none => exact ho
      | some start =>
          dsimp only
          split
          next hbatch =>
            exact ordered_claim ho hrun (phase_of_claimStart hstart) hbatch how
              (hsafe start hstart hrun hbatch)
          · exact ho
  | connect create =>
      unfold run
      dsimp only
      split
      next hat => exact ordered_connect h ho hrun hat.1 hat.2 create (hsafe hrun hat.1 hat.2)
      · exact ho
  | readGroup how =>
      unfold run
      dsimp only
      split
      next hat =>
        exact ordered_readGroup h ho hrun hat.1 hat.2 how
          fun hhow => hsafe hhow hrun hat.1 hat.2
      · exact ho
  | barClose calls nowMs =>
      unfold run
      dsimp only
      split
      next hat => exact ordered_barClose ho hrun hat.1 hat.2 calls nowMs (hsafe hrun hat.1 hat.2)
      · exact ho
  | handle xack calls nowMs =>
      unfold run
      dsimp only
      cases hhead : s.head with
      | none => exact ho
      | some x =>
          obtain ⟨hbatch, hm⟩ := head_eq_some hhead
          have hsafe' := hsafe x hhead hrun
          unfold Slot.handle
          dsimp only
          split
          next hw => exact ordered_handleShadow h ho hrun hw hbatch hm
          next hw =>
            refine ordered_handleActive h ho hrun hw hbatch hm xack calls nowMs
              (fun hphase => ?_) fun hphase => ?_
            · have hentry := hsafe' hw
              rwa [if_neg hphase] at hentry
            · have hentry := hsafe' hw
              rwa [if_pos hphase] at hentry
  | stop => exact ho.of_exited rfl rfl rfl rfl
  | add => exact ho
  | trim => exact ho
  | oldStart => exact ho
  | oldRead => exact ho
  | oldAck => exact ho
  | takeLast => exact ho
  | setCursor => exact ho
  | clearMode => exact ho

/-- **A safe step keeps the entries in order.** -/
theorem ordered_step (h : s.Inv N F bestQuote depth c) (ho : s.Ordered) (e : SlotEvent)
    (hsafe : s.Safe e) : (step N F bestQuote depth s e).1.Ordered := by
  have hrun : (if s.c.exited then s else s.run N F bestQuote depth e).Ordered := by
    split
    · exact ho
    next hrun => exact ordered_run h ho (Bool.eq_false_iff.mpr hrun) e hsafe
  unfold step
  cases e with
  | add m => exact ho.of_sameConsumer (sameConsumer_add s m)
  | trim p =>
      refine ho.of_sameConsumer (sameConsumer_stream _ rfl (fun hrun' _ hle => ?_) fun _ => ?_)
      · exact max_le hle (hsafe hrun')
      · rw [Stream.next_trim]
        exact ⟨le_max_left _ _, fun hrun' _ hle => max_le hle (hsafe hrun')⟩
  | oldStart =>
      refine ho.of_sameConsumer (sameConsumer_stream _ rfl (fun _ _ hle => hle) fun hw => ?_)
      rw [Stream.createGroup_of_origin (h.origin hw)]
      exact ⟨le_refl _, fun _ _ hle => hle⟩
  | oldRead n =>
      refine ho.of_sameConsumer (sameConsumer_stream _ rfl (fun _ _ hle => hle) fun hw => ?_)
      refine ⟨?_, fun hrun' hactive _ => hsafe hactive hrun'⟩
      rw [Stream.next_deliver (h.origin hw)]
      exact Nat.le_add_right _ _
  | oldAck p =>
      refine ho.of_sameConsumer (sameConsumer_stream _ rfl (fun _ _ hle => hle) fun _ => ?_)
      rw [Stream.next_ack]
      exact ⟨le_refl _, fun _ _ hle => hle⟩
  | takeLast =>
      dsimp only
      split
      · exact ho.of_sameConsumer ⟨rfl, rfl, rfl, rfl, rfl, rfl, rfl, List.prefix_refl _,
          fun _ => rfl, fun _ _ hle => hle, fun _ => le_refl _, fun _ _ hle => hle⟩
      · exact ho
  | setCursor create setID =>
      dsimp only
      cases hpromotion : s.promotion with
      | taken id =>
          have hw : s.phase.Warming := h.warming (by rw [hpromotion]; exact fun h => by cases h)
          exact ho.of_sameConsumer (sameConsumer_setCursor hw id create setID)
      | idle => exact ho
      | cursorSet id => exact ho
      | done => exact ho
      | failed => exact ho
  | clearMode =>
      dsimp only
      cases s.promotion with
      | cursorSet id =>
          exact ho.of_sameConsumer ⟨rfl, rfl, rfl, rfl, rfl, rfl, rfl, List.prefix_refl _,
            fun _ => rfl, fun _ _ hle => hle, fun _ => le_refl _, fun _ _ hle => hle⟩
      | idle => exact ho
      | taken id => exact ho
      | done => exact ho
      | failed => exact ho
  | check => exact hrun
  | xread how => exact hrun
  | claim how => exact hrun
  | connect create => exact hrun
  | readGroup how => exact hrun
  | barClose calls nowMs => exact hrun
  | handle xack calls nowMs => exact hrun
  | stop => exact hrun

/-! ### Exactly once -/

theorem inv_new (N : Numerics) (F : Features) (bestQuote : OrderBook → BestQuote)
    (depth : OrderBook → DepthSnapshot) (c : FullConsumer) (stream : TickStream) :
    (new c stream).Inv N F bestQuote depth c where
  nodup := stream.nodup
  ids := stream.ids
  base_le := le_refl _
  warmth := ⟨rfl, rfl⟩
  recorded := fun _ _ hmem => absurd hmem List.not_mem_nil
  promoted := fun hw => absurd (.inl rfl) hw
  mode := fun hm => absurd hm Bool.true_eq_false.mp
  grouped := by
    rintro (hdone | ⟨_, hset⟩)
    · cases hdone
    · cases hset

theorem ordered_new (c : FullConsumer) (stream : TickStream) : (new c stream).Ordered := by
  refine ⟨rfl, stream.trimmed_le, fun _ => ⟨fresh_nil _, fun _ hp => absurd hp List.not_mem_nil,
    fun _ => ⟨fun _ hp => absurd hp List.not_mem_nil, le_refl _, .inr ⟨rfl, rfl⟩, fun _ => rfl⟩,
    fun hw => absurd (.inl rfl) hw⟩⟩

/-- The book is made of the entries that were handed on. -/
theorem book_replay (acts : List Act) :
    ∀ c : FullConsumer, (replay N F bestQuote depth c acts).book =
      (acts.filterMap Act.message).foldl
        (fun ob m => (ob.applyMessage (parseMessage m.fields)).1) c.book := by
  induction acts with
  | nil => exact fun _ => rfl
  | cons a acts ih =>
      intro c
      rw [replay, List.foldl_cons, ← replay, ih]
      cases a with
      | entry p m =>
          have hmessage : (Act.entry p m :: acts).filterMap Act.message =
              m :: acts.filterMap Act.message := rfl
          rw [hmessage, List.foldl_cons, Act.apply, FullConsumer.book_handleShadowMessage]
      | promoted => rfl
      | barClose calls nowMs => rfl

/-- Entries one after another are a stretch of the stream. -/
theorem filterMap_range' {α : Type*} (l : List α) (k : ℕ) :
    ∀ b, b + k ≤ l.length → (List.range' b k).filterMap (l[·]?) = (l.drop b).take k := by
  induction k with
  | zero => exact fun _ _ => by rw [List.take_zero]; rfl
  | succ k ih =>
      intro b hb
      have hlt : b < l.length := by omega
      rw [List.range'_succ, List.filterMap_cons_some (List.getElem?_eq_getElem hlt),
        ih (b + 1) (by omega), List.drop_eq_getElem_cons hlt, List.take_succ_cons]

theorem Inv.messages (h : s.Inv N F bestQuote depth c) :
    s.history.filterMap Act.message = s.handled.filterMap (s.stream.entries[·]?) := by
  rw [handled, List.filterMap_filterMap]
  refine List.filterMap_congr fun a ha => ?_
  cases a with
  | entry p m => exact (h.recorded p m ha).symm
  | promoted => rfl
  | barClose calls nowMs => rfl

theorem exactlyOnce (h : s.Inv N F bestQuote depth c) (ho : s.Ordered) :
    s.ExactlyOnce N F bestQuote depth c where
  book := by
    rw [h.warmth.book, book_replay, h.messages]
    congr 1
    nth_rewrite 1 [ho.inOrder]
    exact filterMap_range' _ _ _ ho.upTo_le
  inOrder := ho.inOrder
  complete := by
    intro hidle
    have hr := ho.ready hidle.running
    have hw : ¬ s.phase.Warming := hidle.active ▸ not_warming_active
    have hreached := (hr.promoted hw).reached hidle.active
    rw [unread_of_batch hidle.batch] at hreached
    have hread := hidle.read
    have hle := ho.upTo_le
    rw [List.length_drop]
    unfold Slot.upTo at hreached hle
    omega
  counted := by
    intro warmUp since hhistory
    constructor
    · have hhandled : s.handled =
          warmUp.filterMap Act.position ++ since.filterMap Act.position := by
        rw [handled, hhistory, List.filterMap_append]
        rfl
      have horder := ho.inOrder
      rw [hhandled, List.length_append, ← List.range'_append_1] at horder
      exact (List.append_inj horder (by rw [List.length_range'])).2
    · rw [h.warmth.aw, hhistory, replay, List.foldl_append]
      rfl

/-- **As long as the group goes on exactly where the shadow mode has ended, what is claimed is what
comes next, and nothing that is claimed is forgotten before it has been delivered again, every
entry is handed on once and in order.** -/
theorem exactlyOnce_of_safe (N : Numerics) (F : Features) (bestQuote : OrderBook → BestQuote)
    (depth : OrderBook → DepthSnapshot) (c : FullConsumer) (stream : TickStream)
    (es : List SlotEvent) (hsafe : Along (step N F bestQuote depth) Safe (new c stream) es) :
    (final (step N F bestQuote depth) (new c stream) es).ExactlyOnce N F bestQuote depth c := by
  have hfinal := final_invariant_along (I := fun s => s.Inv N F bestQuote depth c ∧ s.Ordered)
    (fun s e h hse => ⟨inv_step h.1 e, ordered_step h.1 h.2 e hse⟩) es
    ⟨inv_new N F bestQuote depth c stream, ordered_new c stream⟩ hsafe
  exact exactlyOnce hfinal.1 hfinal.2

/-! ### Two promotions -/

/-- An order event of the bids. -/
def bidEntry (id price size : String) : Message :=
  ⟨id, [("type", "tick"), ("event_type", "delta"), ("side", "buy"), ("price", price),
    ("size", size)]⟩

/-- A snapshot, and a level that changes twice. -/
def levelEntries : List Message :=
  [⟨"1-0", [("type", "snapshot")]⟩, bidEntry "2-0" "7" "1", bidEntry "3-0" "7" "2"]

/-- The old slot has read the entries, and has not acknowledged those with the positions
`pending`. -/
def levelStream (pending : List ℕ) : TickStream where
  entries := levelEntries
  group := some { start := 0, cursor := 3, pending }
  nodup := by decide
  ids := by
    intro m hm
    simp only [levelEntries, bidEntry, List.mem_cons, List.not_mem_nil, or_false] at hm
    rcases hm with rfl | rfl | rfl <;> decide
  trimmed_le := Nat.zero_le _

/-- A promotion after the shadow mode has read all entries; another one follows. -/
def handOver : List SlotEvent :=
  let handle : SlotEvent := .handle .ok {} 60100
  [.check, .xread .ok, handle, handle, handle, .takeLast, .setCursor .ok .ok, .clearMode, .check,
    .claim .ok, handle, .connect .ok, .add (bidEntry "4-0" "8" "1"), .readGroup .ok, handle,
    .barClose {} 61000]

theorem exactlyOnce_promotion :
    let quote : OrderBook → BestQuote := fun _ => ⟨"7", "1", "9", "1"⟩
    let N := Ledger.fractions
    let F := FullAccumulator.noFeatures
    let c := FullConsumer.new "bybit" "BTC-USDT" 1000
    (final (step N F quote fun _ => {}) (new c (levelStream [])) handOver).ExactlyOnce N F quote
      (fun _ => {}) c :=
  exactlyOnce_of_safe Ledger.fractions FullAccumulator.noFeatures
    (fun _ => ⟨"7", "1", "9", "1"⟩) (fun _ => {}) (FullConsumer.new "bybit" "BTC-USDT" 1000)
    (levelStream []) handOver (by decide +kernel)

/-- The old slot has left the first change of the level: it is claimed after the second one, and the
book goes back to it. -/
theorem pending_entry_comes_late :
    let quote : OrderBook → BestQuote := fun _ => ⟨"7", "1", "9", "1"⟩
    let N := Ledger.fractions
    let F := FullAccumulator.noFeatures
    let c := FullConsumer.new "bybit" "BTC-USDT" 1000
    let s := final (step N F quote fun _ => {}) (new c (levelStream [1])) handOver
    s.Idle ∧ s.handled = [0, 1, 2, 1, 3] ∧ s.c.book.bids.lookup "7" = some "1" ∧
      ¬ s.ExactlyOnce N F quote (fun _ => {}) c := by
  refine ⟨⟨by decide +kernel, by decide +kernel, by decide +kernel, by decide +kernel⟩,
    by decide +kernel, by decide +kernel, fun h => ?_⟩
  exact absurd h.inOrder (by decide +kernel)

end Slot

end MagnumOpus.Candle
