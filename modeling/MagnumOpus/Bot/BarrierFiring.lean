import MagnumOpus.Bot.Barrier

/-! # Once for each bucket

What a barrier fires over a whole run, in which its expired buckets are flushed and bars are taken
up in any order; each call of `feed` does one after the other (`feed_eq`).

* **The hope.** `FiresOnce`: no bucket is fired twice, what is fired are the last bars that arrived
  for the bucket, of configured symbols only, and a bucket whose symbols all arrive in time is fired
  with all of them.
* **Why it fails.** A bucket that has been forgotten is collected again when a late bar comes for
  it, and bars of unknown symbols are collected with the others.
* **When it holds.** `firesOnce_of_heeds`: no bar comes for a bucket that has been forgotten, and
  the bars that are collected are of configured symbols. -/

namespace MagnumOpus.Bot.Barrier

open EventMachine KeyedSum LatestBy

/-- A barrier and what has happened to it. -/
structure Watched where
  barrier : Barrier := {}
  heard : List BarClose := []
  everFired : List ℤ := []

inductive Event where
  | flush (now : ℤ)
  | receive (bar : BarClose) (now : ℤ)

def Event.now : Event → ℤ
  | .flush now => now
  | .receive _ now => now

def Event.bar? : Event → Option BarClose
  | .flush _ => none
  | .receive bar _ => some bar

/-- The buckets that are fired. -/
def firedTs (out : List Output) : List ℤ :=
  out.filterMap fun
    | .multiBarClose m => some m.ts
    | .gapMarker _ => none

variable (g : Config)

/-- The barrier went on to `r`. -/
def Watched.next (w : Watched) (heard : List BarClose) (r : Barrier × List Output) : Watched where
  barrier := r.1
  heard := heard
  everFired := w.everFired ++ firedTs r.2

def step : Step Watched Event Output := fun w e =>
  match e with
  | .flush now =>
      let r := flushExpired g w.barrier now
      (w.next w.heard r, r.2)
  | .receive bar now =>
      let r := receive g w.barrier bar now
      (w.next (w.heard ++ [bar]) r, r.2)

/-- A call of `feed`. -/
def feedEvents (f : BarClose × ℤ) : List Event := [.flush f.2, .receive f.1 f.2]

theorem feed_eq (w : Watched) (bar : BarClose) (now : ℤ) :
    ((final (step g) w (feedEvents (bar, now))).barrier, trace (step g) w (feedEvents (bar, now))) =
      feed g w.barrier bar now := by
  simp only [feedEvents, final_cons, final_nil, trace_cons, trace_nil, List.append_nil]
  rfl

/-! ### What is hoped for -/

/-- The bucket and the symbol of a bar. -/
def key (bar : BarClose) : ℤ × String := (bucketTs g bar, bar.symbol)

/-- The closes are the last bars that arrived for the bucket, of configured symbols only. -/
def Right (heard : List BarClose) (m : MultiBarClose) : Prop :=
  ∀ symbol, m.closes.lookup symbol =
    if symbol ∈ g.symbols then latest (key g) heard (m.ts, symbol) else none

structure FiresOnce (es : List Event) : Prop where
  once : (firedTs (trace (step g) {} es)).Nodup
  closes : Along (step g)
    (fun w e => ∀ m, .multiBarClose m ∈ (step g w e).2 → Right g (step g w e).1.heard m) {} es
  /-- All symbols arrive after the first bar of a bucket and before its timeout. -/
  complete : ∀ pre bar now post, es = pre ++ .receive bar now :: post →
    (∀ bar' ∈ pre.filterMap Event.bar?, bucketTs g bar' ≠ bucketTs g bar) →
    (∀ e ∈ post, e.now < now + g.timeoutMs) →
    (∀ symbol ∈ g.symbols, ∃ bar' ∈ bar :: post.filterMap Event.bar?,
      key g bar' = (bucketTs g bar, symbol)) →
    ∃ m, .multiBarClose m ∈ trace (step g) {} es ∧ m.ts = bucketTs g bar ∧
      ∀ symbol ∈ g.symbols, symbol ∈ m.closes

/-- The bucket of a bar is remembered, or else it was never fired and the symbol is configured. -/
def Heeds (w : Watched) : Event → Prop
  | .flush _ => True
  | .receive bar _ =>
      bucketTs g bar ∈ w.barrier.fired ∨
        bar.symbol ∈ g.symbols ∧ bucketTs g bar ∉ w.everFired

variable {g} {s : Barrier} {w : Watched} {bucket : ℤ}

/-! ### Firing -/

@[simp] theorem firedTs_append (out out' : List Output) :
    firedTs (out ++ out') = firedTs out ++ firedTs out' := List.filterMap_append

theorem mem_fireBucket {timedOut : Bool} {m : MultiBarClose} :
    .multiBarClose m ∈ (fireBucket g s bucket timedOut).2 ↔
      m = ⟨g.tf, bucket, (s.pending.lookup bucket).getD ∅⟩ := by
  cases timedOut <;> simp [fireBucket]

@[simp] theorem firedTs_fireBucket (s : Barrier) (bucket : ℤ) (timedOut : Bool) :
    firedTs (fireBucket g s bucket timedOut).2 = [bucket] := by
  cases timedOut <;> simp [fireBucket, firedTs, List.filterMap_map]

/-- The buckets that are held are those whose first arrival is known. -/
def Aligned (s : Barrier) : Prop := ∀ bucket, bucket ∈ s.pending ↔ bucket ∈ s.firstArrival

theorem Aligned.fireBucket (h : Aligned s) (bucket : ℤ) (timedOut : Bool) :
    Aligned (fireBucket g s bucket timedOut).1 := by
  intro b
  simp only [Barrier.fireBucket, AList.mem_erase, h b]

theorem mem_expired {now : ℤ} :
    bucket ∈ expired g s now ↔
      ∃ first, s.firstArrival.lookup bucket = some first ∧ g.timeoutMs ≤ now - first := by
  rw [expired, List.mem_insertionSort, List.mem_map]
  constructor
  · rintro ⟨e, he, rfl⟩
    obtain ⟨hmem, hold⟩ := List.mem_filter.mp he
    exact ⟨e.2, AList.mem_lookup_iff.mpr hmem, of_decide_eq_true hold⟩
  · rintro ⟨first, hfirst, hold⟩
    exact ⟨⟨bucket, first⟩, List.mem_filter.mpr ⟨AList.mem_lookup_iff.mp hfirst,
      decide_eq_true hold⟩, rfl⟩

theorem nodup_expired (s : Barrier) (now : ℤ) : (expired g s now).Nodup := by
  rw [expired, (List.perm_insertionSort _ _).nodup_iff]
  exact List.Nodup.sublist (List.filter_sublist.map Sigma.fst) s.firstArrival.nodupKeys

/-! ### The invariant -/

structure Inv (g : Config) (w : Watched) : Prop where
  aligned : Aligned w.barrier
  once : w.everFired.Nodup
  remembered : ∀ bucket ∈ w.barrier.fired, bucket ∈ w.everFired
  unfired : ∀ bucket ∈ w.barrier.pending, bucket ∉ w.everFired
  /-- What is held for a bucket are the last bars that arrived for it. -/
  held : ∀ bucket ∉ w.everFired, ∀ symbol,
    ((w.barrier.pending.lookup bucket).getD ∅).lookup symbol =
      latest (key g) w.heard (bucket, symbol)
  configured : ∀ bucket closes, w.barrier.pending.lookup bucket = some closes →
    ∀ symbol ∈ closes, symbol ∈ g.symbols

theorem inv_start (g : Config) : Inv g {} where
  aligned := fun _ => Iff.rfl
  once := List.nodup_nil
  remembered := fun _ h => absurd h (Finset.notMem_empty _)
  unfired := fun _ _ => List.not_mem_nil
  held := fun _ _ _ => rfl
  configured := fun _ _ h => by cases h

/-- A bucket that is held is fired: it was not fired before, and its closes are right. -/
theorem Inv.fire (h : Inv g w) (hbucket : bucket ∈ w.barrier.pending) (timedOut : Bool) :
    Inv g (w.next w.heard (fireBucket g w.barrier bucket timedOut)) ∧
      ∀ m, .multiBarClose m ∈ (fireBucket g w.barrier bucket timedOut).2 → Right g w.heard m := by
  have hnew := h.unfired bucket hbucket
  have hmem : ∀ b, b ∈ w.everFired ++ [bucket] ↔ b ∈ w.everFired ∨ b = bucket := fun b => by
    rw [List.mem_append, List.mem_singleton]
  refine ⟨⟨h.aligned.fireBucket bucket timedOut, ?_, ?_, ?_, ?_, ?_⟩, ?_⟩
  · simp only [Watched.next, firedTs_fireBucket]
    refine List.nodup_append.mpr ⟨h.once, List.nodup_singleton bucket, fun b hb b' hb' => ?_⟩
    rw [List.mem_singleton.mp hb']
    rintro rfl
    exact hnew hb
  · intro b hb
    simp only [Watched.next, firedTs_fireBucket, hmem]
    rcases Finset.mem_insert.mp hb with rfl | hb
    · exact .inr rfl
    · exact .inl (h.remembered b (Finset.mem_filter.mp hb).1)
  · intro b hb
    obtain ⟨hne, hb⟩ := AList.mem_erase.mp hb
    simp only [Watched.next, firedTs_fireBucket, hmem]
    exact not_or.mpr ⟨h.unfired b hb, hne⟩
  · intro b hb symbol
    simp only [Watched.next, firedTs_fireBucket, hmem, not_or] at hb
    refine Eq.trans ?_ (h.held b hb.1 symbol)
    exact congrArg (fun o : Option (Entries String BarClose) => (o.getD ∅).lookup symbol)
      (AList.lookup_erase_ne hb.2)
  · intro b closes hlookup
    have hne : b ≠ bucket := by
      rintro rfl
      cases (AList.lookup_erase b w.barrier.pending).symm.trans hlookup
    exact h.configured b closes ((AList.lookup_erase_ne hne).symm.trans hlookup)
  · intro m hm symbol
    obtain rfl := mem_fireBucket.mp hm
    obtain ⟨closes, hcloses⟩ := Option.isSome_iff_exists.mp (AList.lookup_isSome.mpr hbucket)
    have hheld := h.held bucket hnew symbol
    rw [hcloses, Option.getD_some] at hheld
    simp only [hcloses, Option.getD_some]
    by_cases hsymbol : symbol ∈ g.symbols
    · rw [if_pos hsymbol, hheld]
    · rw [if_neg hsymbol]
      exact AList.lookup_eq_none.mpr fun hin =>
        hsymbol (h.configured bucket closes hcloses symbol hin)

theorem Inv.fires (h : Inv g w) (bs : List ℤ) (hnodup : bs.Nodup)
    (hbs : ∀ bucket ∈ bs, bucket ∈ w.barrier.pending) :
    let r := (final (fireStep g) w.barrier bs, trace (fireStep g) w.barrier bs)
    Inv g (w.next w.heard r) ∧ ∀ m, .multiBarClose m ∈ r.2 → Right g w.heard m := by
  induction bs generalizing w with
  | nil =>
      refine ⟨?_, fun m hm => absurd hm List.not_mem_nil⟩
      simp only [final_nil, trace_nil, Watched.next, firedTs, List.filterMap_nil, List.append_nil]
      exact h
  | cons b bs ih =>
      obtain ⟨hb, hnodup⟩ := List.nodup_cons.mp hnodup
      obtain ⟨hfire, hright⟩ := h.fire (hbs b List.mem_cons_self) true
      have hrest : ∀ b' ∈ bs, b' ∈ (fireBucket g w.barrier b true).1.pending := by
        intro b' hb'
        refine AList.mem_erase.mpr ⟨?_, hbs b' (List.mem_cons_of_mem b hb')⟩
        rintro rfl
        exact hb hb'
      obtain ⟨hend, hright'⟩ := ih hfire hnodup hrest
      simp only [final_cons, trace_cons]
      refine ⟨?_, fun m hm => ?_⟩
      · simp only [Watched.next, firedTs_append, ← List.append_assoc] at hend ⊢
        exact hend
      · rcases List.mem_append.mp hm with hm | hm
        · exact hright m hm
        · exact hright' m hm

theorem Inv.flushExpired (h : Inv g w) (now : ℤ) :
    let r := flushExpired g w.barrier now
    Inv g (w.next w.heard r) ∧ ∀ m, .multiBarClose m ∈ r.2 → Right g w.heard m := by
  refine h.fires (expired g w.barrier now) (nodup_expired _ _) fun bucket hbucket => ?_
  obtain ⟨first, hfirst, -⟩ := mem_expired.mp hbucket
  exact (h.aligned bucket).mpr (AList.lookup_isSome.mp (by rw [hfirst]; rfl))

theorem Inv.ignore (h : Inv g w) {bar : BarClose} (hbar : bucketTs g bar ∈ w.everFired) :
    Inv g { w with heard := w.heard ++ [bar] } where
  aligned := h.aligned
  once := h.once
  remembered := h.remembered
  unfired := h.unfired
  held := by
    intro b hb symbol
    have hkey : key g bar ≠ (b, symbol) := by
      intro hkey
      have hbucket : bucketTs g bar = b := congrArg Prod.fst hkey
      exact hb (hbucket ▸ hbar)
    rw [latest_append_singleton, if_neg hkey]
    exact h.held b hb symbol
  configured := h.configured

theorem Inv.hold (h : Inv g w) {bar : BarClose} (now : ℤ) (hbar : bucketTs g bar ∉ w.everFired)
    (hsymbol : bar.symbol ∈ g.symbols) :
    Inv g { w with barrier := hold g w.barrier bar now, heard := w.heard ++ [bar] } where
  aligned := by
    intro b
    simp only [Barrier.hold, AList.mem_insert]
    split
    · next hmem =>
        rw [h.aligned b, or_iff_right_of_imp]
        rintro rfl
        exact (h.aligned _).mp hmem
    · rw [AList.mem_insert, h.aligned b]
  once := h.once
  remembered := h.remembered
  unfired := by
    intro b hb
    rcases (AList.mem_insert _).mp hb with rfl | hb
    · exact hbar
    · exact h.unfired b hb
  held := by
    intro b hb symbol
    rw [latest_append_singleton]
    simp only [Barrier.hold]
    by_cases hsame : bucketTs g bar = b
    · subst hsame
      rw [AList.lookup_insert, Option.getD_some]
      by_cases hkey : bar.symbol = symbol
      · rw [if_pos (by rw [key, hkey]), ← hkey, AList.lookup_insert]
      · rw [if_neg fun h => hkey (congrArg Prod.snd h), AList.lookup_insert_ne (Ne.symm hkey)]
        exact h.held _ hb symbol
    · rw [if_neg fun h => hsame (congrArg Prod.fst h), AList.lookup_insert_ne (Ne.symm hsame)]
      exact h.held b hb symbol
  configured := by
    intro b closes hlookup symbol hin
    by_cases hsame : b = bucketTs g bar
    · subst hsame
      have hcloses := Option.some.inj ((AList.lookup_insert w.barrier.pending).symm.trans hlookup)
      rw [← hcloses, AList.mem_insert] at hin
      rcases hin with rfl | hin
      · exact hsymbol
      · cases hold : w.barrier.pending.lookup (bucketTs g bar) with
        | none =>
            rw [hold] at hin
            exact absurd hin (AList.notMem_empty symbol)
        | some old =>
            rw [hold] at hin
            exact h.configured _ old hold symbol hin
    · exact h.configured b closes ((AList.lookup_insert_ne hsame).symm.trans hlookup) symbol hin

theorem Inv.receive (h : Inv g w) {bar : BarClose} {now : ℤ}
    (hheeds : bucketTs g bar ∈ w.barrier.fired ∨
      bar.symbol ∈ g.symbols ∧ bucketTs g bar ∉ w.everFired) :
    let r := receive g w.barrier bar now
    Inv g (w.next (w.heard ++ [bar]) r) ∧
      ∀ m, .multiBarClose m ∈ r.2 → Right g (w.heard ++ [bar]) m := by
  intro r
  by_cases hfired : bucketTs g bar ∈ w.barrier.fired
  · have hr : r = (w.barrier, []) := if_pos hfired
    rw [hr]
    refine ⟨?_, fun m hm => absurd hm List.not_mem_nil⟩
    simp only [Watched.next, firedTs, List.filterMap_nil, List.append_nil]
    exact h.ignore (h.remembered _ hfired)
  · obtain ⟨hsymbol, hnew⟩ := hheeds.resolve_left hfired
    have hheld := h.hold now hnew hsymbol
    have hin : bucketTs g bar ∈ (Barrier.hold g w.barrier bar now).pending :=
      (AList.mem_insert _).mpr (.inl rfl)
    by_cases hcomplete : complete g (Barrier.hold g w.barrier bar now) (bucketTs g bar) = true
    · have hr : r = fireBucket g (Barrier.hold g w.barrier bar now) (bucketTs g bar) false :=
        (if_neg hfired).trans (if_pos hcomplete)
      rw [hr]
      exact hheld.fire hin false
    · have hr : r = (Barrier.hold g w.barrier bar now, []) :=
        (if_neg hfired).trans (if_neg hcomplete)
      rw [hr]
      refine ⟨?_, fun m hm => absurd hm List.not_mem_nil⟩
      simp only [Watched.next, firedTs, List.filterMap_nil, List.append_nil]
      exact hheld

/-- **A step that heeds fires right.** -/
theorem inv_step (h : Inv g w) (e : Event) (hheeds : Heeds g w e) :
    Inv g (step g w e).1 ∧
      ∀ m, .multiBarClose m ∈ (step g w e).2 → Right g (step g w e).1.heard m := by
  cases e with
  | flush now => exact h.flushExpired now
  | receive bar now => exact h.receive hheeds

theorem everFired_final (es : List Event) (w : Watched) :
    (final (step g) w es).everFired = w.everFired ++ firedTs (trace (step g) w es) := by
  induction es generalizing w with
  | nil => exact (List.append_nil _).symm
  | cons e es ih =>
      have hstep : (step g w e).1.everFired = w.everFired ++ firedTs (step g w e).2 := by
        cases e <;> rfl
      rw [final_cons, ih, hstep, trace_cons, firedTs_append, List.append_assoc]

/-! ### Bars in time -/

/-- A bucket of which nothing is known. -/
structure Untouched (s : Barrier) (bucket : ℤ) : Prop where
  pending : bucket ∉ s.pending
  firstArrival : bucket ∉ s.firstArrival
  fired : bucket ∉ s.fired

/-- The bars have arrived for the bucket for some symbol. -/
def Arrived (g : Config) (bars : List BarClose) (bucket : ℤ) (symbol : String) : Prop :=
  ∃ bar ∈ bars, key g bar = (bucket, symbol)

/-- A bucket whose first bar came at `first`, and that holds what has arrived with `bars`. -/
structure Waiting (g : Config) (s : Barrier) (bucket first : ℤ) (bars : List BarClose) :
    Prop where
  firstArrival : s.firstArrival.lookup bucket = some first
  pending : bucket ∈ s.pending
  holds : ∀ symbol,
    symbol ∈ (s.pending.lookup bucket).getD ∅ ↔ Arrived g bars bucket symbol
  fired : bucket ∉ s.fired

/-- The bucket has been fired with all symbols. -/
def FiredWhole (g : Config) (bucket : ℤ) (out : List Output) : Prop :=
  ∃ m, .multiBarClose m ∈ out ∧ m.ts = bucket ∧ ∀ symbol ∈ g.symbols, symbol ∈ m.closes

theorem Untouched.fireBucket (h : Untouched s bucket) {b : ℤ} (hne : bucket ≠ b)
    (timedOut : Bool) : Untouched (fireBucket g s b timedOut).1 bucket where
  pending := fun hmem => h.pending (AList.mem_erase.mp hmem).2
  firstArrival := fun hmem => h.firstArrival (AList.mem_erase.mp hmem).2
  fired := by
    intro hmem
    rcases Finset.mem_insert.mp hmem with rfl | hmem
    · exact hne rfl
    · exact h.fired (Finset.mem_filter.mp hmem).1

theorem Waiting.fireBucket {first : ℤ} {bars : List BarClose}
    (h : Waiting g s bucket first bars) {b : ℤ} (hne : bucket ≠ b) (timedOut : Bool) :
    Waiting g (fireBucket g s b timedOut).1 bucket first bars where
  firstArrival := (AList.lookup_erase_ne hne).trans h.firstArrival
  pending := AList.mem_erase.mpr ⟨hne, h.pending⟩
  holds := by
    intro symbol
    rw [← h.holds symbol]
    exact iff_of_eq (congrArg (fun o : Option (Entries String BarClose) => symbol ∈ o.getD ∅)
      (AList.lookup_erase_ne hne))
  fired := by
    intro hmem
    rcases Finset.mem_insert.mp hmem with rfl | hmem
    · exact hne rfl
    · exact h.fired (Finset.mem_filter.mp hmem).1

/-- What firing other buckets keeps, flushing keeps while the bucket has not expired. -/
theorem flushExpired_keeps {P : Barrier → Prop} {now : ℤ}
    (hfire : ∀ s b, P s → bucket ≠ b → P (fireBucket g s b true).1) (h : P s)
    (hnot : bucket ∉ expired g s now) : P (flushExpired g s now).1 := by
  have hall : ∀ (bs : List ℤ) (s : Barrier), P s → bucket ∉ bs → P (final (fireStep g) s bs) := by
    intro bs
    induction bs with
    | nil => exact fun _ hs _ => hs
    | cons b bs ih =>
        intro s hs hbs
        obtain ⟨hne, hbs⟩ := not_or.mp (List.mem_cons.not.mp hbs)
        exact ih _ (hfire s b hs hne) hbs
  exact hall _ s h hnot

theorem Untouched.receive (h : Untouched s bucket) {bar : BarClose} (now : ℤ)
    (hne : bucketTs g bar ≠ bucket) : Untouched (receive g s bar now).1 bucket := by
  have hheld : Untouched (hold g s bar now) bucket := by
    refine ⟨fun hmem => ?_, fun hmem => ?_, h.fired⟩
    · exact ((AList.mem_insert _).mp hmem).elim (fun h => hne h.symm) h.pending
    · simp only [hold] at hmem
      split at hmem
      · exact h.firstArrival hmem
      · exact ((AList.mem_insert _).mp hmem).elim (fun h => hne h.symm) h.firstArrival
  unfold Barrier.receive
  dsimp only
  split
  · exact h
  · split
    · exact hheld.fireBucket hne.symm false
    · exact hheld

theorem arrived_append {bars bars' : List BarClose} {symbol : String} :
    Arrived g (bars ++ bars') bucket symbol ↔
      Arrived g bars bucket symbol ∨ Arrived g bars' bucket symbol := by
  simp only [Arrived, List.mem_append, or_and_right, exists_or]

theorem arrived_singleton {bar : BarClose} {symbol : String} :
    Arrived g [bar] bucket symbol ↔ key g bar = (bucket, symbol) := by
  simp [Arrived]

theorem Untouched.hold (h : Untouched s bucket) {bar : BarClose} (now : ℤ)
    (hbar : bucketTs g bar = bucket) : Waiting g (hold g s bar now) bucket now [bar] := by
  subst hbar
  refine ⟨?_, (AList.mem_insert _).mpr (.inl rfl), fun symbol => ?_, h.fired⟩
  · simp only [Barrier.hold, if_neg h.pending]
    exact AList.lookup_insert _
  · simp only [Barrier.hold, AList.lookup_insert, Option.getD_some, AList.mem_insert,
      AList.lookup_eq_none.mpr h.pending, Option.getD_none, AList.notMem_empty, or_false,
      arrived_singleton, key, Prod.mk.injEq, true_and]
    exact eq_comm

theorem Waiting.hold {first : ℤ} {bars : List BarClose} (h : Waiting g s bucket first bars)
    (bar : BarClose) (now : ℤ) : Waiting g (hold g s bar now) bucket first (bars ++ [bar]) := by
  by_cases hbar : bucketTs g bar = bucket
  · subst hbar
    refine ⟨?_, (AList.mem_insert _).mpr (.inl rfl), fun symbol => ?_, h.fired⟩
    · simp only [Barrier.hold, if_pos h.pending]
      exact h.firstArrival
    · simp only [Barrier.hold, AList.lookup_insert, Option.getD_some, AList.mem_insert,
        h.holds symbol, arrived_append, arrived_singleton, key, Prod.mk.injEq, true_and]
      rw [or_comm, eq_comm]
  · refine ⟨?_, (AList.mem_insert _).mpr (.inr h.pending), fun symbol => ?_, h.fired⟩
    · simp only [Barrier.hold]
      split
      · exact h.firstArrival
      · rw [AList.lookup_insert_ne (Ne.symm hbar)]
        exact h.firstArrival
    · have hkey : ¬ key g bar = (bucket, symbol) := fun hkey => hbar (congrArg Prod.fst hkey)
      simp only [Barrier.hold, AList.lookup_insert_ne (Ne.symm hbar), h.holds symbol,
        arrived_append, arrived_singleton, hkey, or_false]

/-- A bucket that holds all symbols is fired whole; otherwise it waits. -/
theorem Waiting.receive {first now : ℤ} {bar : BarClose} {bars : List BarClose}
    (h : Waiting g (Barrier.hold g s bar now) bucket first bars)
    (hfired : bucketTs g bar ∉ s.fired) :
    let r := Barrier.receive g s bar now
    FiredWhole g bucket r.2 ∨ Waiting g r.1 bucket first bars ∧
      (bucketTs g bar = bucket → ∃ symbol ∈ g.symbols, ¬ Arrived g bars bucket symbol) := by
  intro r
  by_cases hcomplete : complete g (Barrier.hold g s bar now) (bucketTs g bar) = true
  · have hr : r = Barrier.fireBucket g (Barrier.hold g s bar now) (bucketTs g bar) false :=
      (if_neg hfired).trans (if_pos hcomplete)
    rw [hr]
    by_cases hbar : bucketTs g bar = bucket
    · left
      rw [complete, List.all_eq_true] at hcomplete
      exact ⟨_, mem_fireBucket.mpr rfl, hbar, fun symbol hsymbol =>
        of_decide_eq_true (hcomplete symbol hsymbol)⟩
    · exact .inr ⟨h.fireBucket (Ne.symm hbar) false, fun heq => absurd heq hbar⟩
  · have hr : r = (Barrier.hold g s bar now, []) :=
      (if_neg hfired).trans (if_neg hcomplete)
    rw [hr]
    refine .inr ⟨h, fun hbar => ?_⟩
    by_contra hall
    push Not at hall
    refine hcomplete (List.all_eq_true.mpr fun symbol hsymbol => decide_eq_true ?_)
    rw [hbar, h.holds symbol]
    exact hall symbol hsymbol

theorem Waiting.step {first : ℤ} {bars : List BarClose}
    (h : Waiting g w.barrier bucket first bars)
    (hmissing : ∃ symbol ∈ g.symbols, ¬ Arrived g bars bucket symbol) (e : Event)
    (hnow : e.now < first + g.timeoutMs) :
    FiredWhole g bucket (step g w e).2 ∨
      Waiting g (step g w e).1.barrier bucket first (bars ++ e.bar?.toList) ∧
        ∃ symbol ∈ g.symbols, ¬ Arrived g (bars ++ e.bar?.toList) bucket symbol := by
  cases e with
  | flush now =>
      right
      rw [Event.bar?, Option.toList_none, List.append_nil]
      refine ⟨?_, hmissing⟩
      refine flushExpired_keeps (P := fun s => Waiting g s bucket first bars)
        (fun s b hs hne => hs.fireBucket hne true) h ?_
      rw [mem_expired]
      rintro ⟨first', hfirst', hold⟩
      rw [h.firstArrival] at hfirst'
      cases hfirst'
      rw [Event.now] at hnow
      omega
  | receive bar now =>
      rw [Event.bar?, Option.toList_some]
      by_cases hbar : bucketTs g bar = bucket
      · have hfired : bucketTs g bar ∉ w.barrier.fired := hbar ▸ h.fired
        exact ((h.hold bar now).receive hfired).imp_right fun hw => ⟨hw.1, hw.2 hbar⟩
      · have hsame : ∀ symbol, Arrived g (bars ++ [bar]) bucket symbol ↔
            Arrived g bars bucket symbol := by
          intro symbol
          rw [arrived_append, arrived_singleton]
          exact or_iff_left fun hkey => hbar (congrArg Prod.fst hkey)
        have hstill : ∃ symbol ∈ g.symbols, ¬ Arrived g (bars ++ [bar]) bucket symbol := by
          obtain ⟨symbol, hsymbol, hnot⟩ := hmissing
          exact ⟨symbol, hsymbol, (hsame symbol).not.mpr hnot⟩
        by_cases hfired : bucketTs g bar ∈ w.barrier.fired
        · have hr : (Barrier.step g w (.receive bar now)).1.barrier = w.barrier :=
            congrArg Prod.fst (if_pos hfired : Barrier.receive g w.barrier bar now = _)
          rw [hr]
          exact .inr ⟨⟨h.firstArrival, h.pending,
            fun symbol => (h.holds symbol).trans (hsame symbol).symm, h.fired⟩, hstill⟩
        · exact ((h.hold bar now).receive hfired).imp_right fun hw => ⟨hw.1, hstill⟩

/-- While the bucket waits and its timeout has not come, it is fired whole or symbols are
missing. -/
theorem Waiting.run {first : ℤ} (es : List Event) {w : Watched} {bars : List BarClose}
    (h : Waiting g w.barrier bucket first bars)
    (hmissing : ∃ symbol ∈ g.symbols, ¬ Arrived g bars bucket symbol)
    (hnow : ∀ e ∈ es, e.now < first + g.timeoutMs) :
    FiredWhole g bucket (trace (Barrier.step g) w es) ∨
      ∃ symbol ∈ g.symbols, ¬ Arrived g (bars ++ es.filterMap Event.bar?) bucket symbol := by
  induction es generalizing w bars with
  | nil =>
      rw [List.filterMap_nil, List.append_nil]
      exact .inr hmissing
  | cons e es ih =>
      have hrest : ∀ e' ∈ es, e'.now < first + g.timeoutMs :=
        fun e' he' => hnow e' (List.mem_cons_of_mem e he')
      have hbars : bars ++ (e :: es).filterMap Event.bar? =
          bars ++ e.bar?.toList ++ es.filterMap Event.bar? := by
        cases e <;> simp [Event.bar?, List.filterMap_cons]
      rw [trace_cons, hbars]
      rcases h.step hmissing e (hnow e List.mem_cons_self) with hfired | ⟨hwaits, hstill⟩
      · obtain ⟨m, hm, hwhole⟩ := hfired
        exact .inl ⟨m, List.mem_append_left _ hm, hwhole⟩
      · rcases ih hwaits hstill hrest with ⟨m, hm, hwhole⟩ | hend
        · exact .inl ⟨m, List.mem_append_right _ hm, hwhole⟩
        · exact .inr hend

theorem Aligned.flushExpired (h : Aligned s) (now : ℤ) : Aligned (flushExpired g s now).1 :=
  final_invariant (fun _ b hs => hs.fireBucket b true) _ h

theorem untouched_run (es : List Event)
    (h : ∀ bar ∈ es.filterMap Event.bar?, bucketTs g bar ≠ bucket) {w : Watched}
    (hw : Untouched w.barrier bucket) : Untouched (final (step g) w es).barrier bucket := by
  induction es generalizing w with
  | nil => exact hw
  | cons e es ih =>
      cases e with
      | flush now =>
          refine ih (w := (step g w (.flush now)).1) h ?_
          refine flushExpired_keeps (P := fun s => Untouched s bucket)
            (fun s b hs hne => hs.fireBucket hne true) hw ?_
          rw [mem_expired]
          rintro ⟨first, hfirst, -⟩
          exact hw.firstArrival (AList.lookup_isSome.mp (by rw [hfirst]; rfl))
      | receive bar now =>
          obtain ⟨hbar, hrest⟩ := List.forall_mem_cons.mp h
          exact ih hrest (hw.receive now hbar)

/-- A bucket whose symbols all arrive in time is fired with all of them. -/
theorem firedWhole_of_arrived {pre post : List Event} {bar : BarClose} {now : ℤ}
    (hpre : ∀ bar' ∈ pre.filterMap Event.bar?, bucketTs g bar' ≠ bucketTs g bar)
    (hpost : ∀ e ∈ post, e.now < now + g.timeoutMs)
    (hall : ∀ symbol ∈ g.symbols,
      Arrived g (bar :: post.filterMap Event.bar?) (bucketTs g bar) symbol) :
    FiredWhole g (bucketTs g bar) (trace (step g) {} (pre ++ .receive bar now :: post)) := by
  have hstart : Untouched ({} : Watched).barrier (bucketTs g bar) :=
    ⟨AList.notMem_empty _, AList.notMem_empty _, Finset.notMem_empty _⟩
  have huntouched := untouched_run pre hpre hstart
  rw [trace_append, trace_cons]
  rcases (huntouched.hold now rfl).receive huntouched.fired with hfired | ⟨hwaits, hmissing⟩
  · obtain ⟨m, hm, hwhole⟩ := hfired
    exact ⟨m, List.mem_append_right _ (List.mem_append_left _ hm), hwhole⟩
  · rcases Waiting.run post (w := (step g (final (step g) {} pre) (.receive bar now)).1) hwaits
      (hmissing rfl) hpost with ⟨m, hm, hwhole⟩ | ⟨symbol, hsymbol, hnot⟩
    · exact ⟨m, List.mem_append_right _ (List.mem_append_right _ hm), hwhole⟩
    · exact absurd (hall symbol hsymbol) hnot

/-- **Every bucket is fired once, right and whole**, in every run in which no bar comes for a bucket
that was fired and forgotten and no bar of an unknown symbol is collected. -/
theorem firesOnce_of_heeds (g : Config) (es : List Event) (h : Along (step g) (Heeds g) {} es) :
    FiresOnce g es := by
  have hstep : ∀ w e, Inv g w → Heeds g w e →
      (∀ m, .multiBarClose m ∈ (step g w e).2 → Right g (step g w e).1.heard m) ∧
        Inv g (step g w e).1 := fun w e hw hheeds => (inv_step hw e hheeds).symm
  have hend : Inv g (final (step g) {} es) :=
    final_invariant_along (fun w e hw hheeds => (hstep w e hw hheeds).2) es (inv_start g) h
  refine ⟨?_, along_of_invariant hstep es (inv_start g) h, ?_⟩
  · have honce := hend.once
    rw [everFired_final] at honce
    exact honce
  · rintro pre bar now post rfl hpre hpost hall
    exact firedWhole_of_arrived hpre hpost hall

/-! ### Runs on two symbols -/

def pairs : Config where
  symbols := ["BTC", "ETH"]
  tf := "1s"
  width := 1000
  timeoutMs := 250
  symbols_ne := List.cons_ne_nil _ _
  tfMs_tf := rfl

def closeOf (symbol : String) (ts : ℤ) : BarClose where
  exchange := "bybit"
  symbol := symbol
  tf := "1s"
  ts := ts
  openPrice := 1
  high := 1
  low := 1
  close := 1
  volume := 0
  quoteVolume := 0
  tradeCount := 0
  isComplete := true

theorem firesOnce_pair :
    FiresOnce pairs
      ([(closeOf "BTC" 1000, 2000), (closeOf "ETH" 1001, 2010)].flatMap feedEvents) := by
  refine firesOnce_of_heeds pairs _ ⟨trivial, ?_, trivial, ?_, trivial⟩
  · exact .inr ⟨by decide, by decide⟩
  · exact .inr ⟨by decide, by decide⟩

/-- The first bucket times out without `ETH`, the next one fires, and the late bars for the first
one fire it again. -/
def forgottenBucket : List Event :=
  [(closeOf "BTC" 1000, 2000), (closeOf "BTC" 2000, 3000), (closeOf "ETH" 2000, 3010),
    (closeOf "BTC" 1000, 3020), (closeOf "ETH" 1000, 3030)].flatMap feedEvents

theorem forgotten_bucket_fires_again :
    firedTs (trace (step pairs) {} forgottenBucket) = [1000, 2000, 1000] ∧
      ¬ FiresOnce pairs forgottenBucket := by
  have hfired : firedTs (trace (step pairs) {} forgottenBucket) = [1000, 2000, 1000] := by
    decide +kernel
  exact ⟨hfired, fun h => absurd (hfired ▸ h.once) (by decide)⟩

def closesSymbol (symbol : String) : Output → Bool
  | .multiBarClose m => symbol ∈ m.closes
  | .gapMarker _ => false

/-- A bar of an unknown symbol is among the closes. -/
theorem unknown_symbol_is_closed :
    (trace (step pairs) {} ([(closeOf "XRP" 1000, 2000), (closeOf "BTC" 1000, 2000),
      (closeOf "ETH" 1000, 2010)].flatMap feedEvents)).any (closesSymbol "XRP") = true := by
  decide +kernel

end MagnumOpus.Bot.Barrier
