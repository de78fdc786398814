import Mathlib.Data.String.Basic
import MagnumOpus.Candle.Regime
import MagnumOpus.Ml.Inference

/-! # Signals under a regime

The classifier of the candle service sets a key of Redis to the regime of a stream, with a time to
live; the loops of the ML service (`inference/loop.py`) poll the latest row, read that key, ask the
registry's model and add the signal to a stream.  All of them run beside each other, and a step of
any of them may come between two steps of another.

* **Gate.** A signal that names a model, or is not FLAT, was made under the regime last published
  within its time to live, never a trending one; with nothing published in that time it was made
  under RANGING (`sent_under_regime`).
* **Rows.** When the table's latest row never goes back, the signals of a loop never go back, and
  no row is signalled twice while no reply is lost and the loop is not stopped (`sent_once`). -/

namespace MagnumOpus.Stream.RegimeGate

open EventMachine Candle Ml

/-! ### Keys -/

def regimeKey (exchange symbol : String) : String := "regime:" ++ exchange ++ ":" ++ symbol

def streamKey (symbol : String) : String := "ai:" ++ symbol ++ ":signals"

/-- The key of `_running_tasks`. -/
def runningKey (exchange symbol : String) : String := exchange ++ ":" ++ symbol

/-! ### The loops -/

/-- A row of `_fetch_latest_row`. -/
structure LatestRow where
  ts : String
  columns : Inference.Row

/-- The fields of an added entry. -/
structure Entry where
  ts : String
  exchange : String
  symbol : String
  regime : String
  cluster : ℤ
  signal : String
  confidence : ℚ
  modelId : String
  deviationBps : ℚ
  deriving DecidableEq

def entryOf (ts exchange symbol : String) (sig : Inference.Signal) : Entry where
  ts := ts
  exchange := exchange
  symbol := symbol
  regime := sig.regime
  cluster := sig.cluster
  signal := sig.label
  confidence := sig.confidence
  modelId := sig.modelId.getD ""
  deviationBps := sig.deviationBps

/-- Where an iteration waits. -/
inductive Phase
  | idle
  | fetched (row : LatestRow)
  | known (row : LatestRow) (regime : String)
  | sending (entry : Entry)

/-- A task of `_symbol_loop`. -/
structure Loop where
  exchange : String
  symbol : String
  lastTs : Option String
  phase : Phase

/-- An entry of a stream of signals. -/
structure Sent where
  stream : String
  entry : Entry
  deriving DecidableEq

/-- What one iteration does next.  `fail` is anything that raises. -/
inductive Turn
  | fetch (row : Option LatestRow)
  | getRegime (nowMs : ℕ)
  | predict
  | xadd (replied : Bool)
  | fail

section

variable {A : Type}

/-- What both services are run with. -/
structure Setup (A : Type) where
  roots : Regime.Roots
  parseFloat : String → Option ℚ
  config : Regime.Config
  models : Inference.ModelOps A

/-- The keys of Redis with the times at which they expire, and the ML service. -/
structure State (A : Type) where
  redis : String → Option (String × ℕ)
  service : Inference.Service A
  running : String → Option Loop

/-- `_get_regime`. -/
def getRegime (redis : String → Option (String × ℕ)) (exchange symbol : String) (nowMs : ℕ) :
    String :=
  match redis (regimeKey exchange symbol) with
  | some (regime, expires) => if nowMs < expires ∧ regime ≠ "" then regime else "RANGING"
  | none => "RANGING"

/-- One turn of a loop: the models loaded, the loop and what was added. -/
def turn (C : Setup A) (s : State A) (l : Loop) (t : Turn) :
    Inference.Service A × Loop × List Sent :=
  match l.phase, t with
  | .idle, .fetch (some row) =>
      (s.service, if l.lastTs = some row.ts then l else { l with phase := .fetched row }, [])
  | .fetched row, .getRegime nowMs =>
      (s.service,
        { l with phase := .known row (getRegime s.redis l.exchange l.symbol nowMs) }, [])
  | .known row regime, .predict =>
      let (service, sig, _) :=
        Inference.predict C.models s.service row.columns l.exchange l.symbol regime
      match sig with
      | some sig =>
          (service, { l with phase := .sending (entryOf row.ts l.exchange l.symbol sig) }, [])
      | none => (service, { l with phase := .idle }, [])
  | .sending entry, .xadd replied =>
      (s.service,
        { l with lastTs := if replied then some entry.ts else l.lastTs, phase := .idle },
        [⟨streamKey l.symbol, entry⟩])
  | _, .fail => (s.service, { l with phase := .idle }, [])
  | _, _ => (s.service, l, [])

/-- What happens in the two services. -/
inductive Event (A : Type)
  | service (e : Inference.Event A)
  /-- `Classify` and `Publish`; the stream is `none` when it could not be read. -/
  | publish (nowMs : ℕ) (exchange symbol : String) (stream : Option (List Regime.Values))
      (stored : Bool)
  | start (exchange symbol : String)
  | stop (key : String)
  | turn (key : String) (t : Turn)

def ttlMs (C : Setup A) : ℕ := 1000 * C.config.ttlSeconds

def step (C : Setup A) : Step (State A) (Event A) Sent := fun s e =>
  match e with
  | .service e => ({ s with service := (Inference.step C.models s.service e).1 }, [])
  | .publish nowMs exchange symbol stream stored =>
      let regime := (Regime.classify C.roots C.parseFloat C.config stream).text
      if stored then
        ({ s with
            redis := Function.update s.redis (regimeKey exchange symbol)
              (some (regime, nowMs + ttlMs C)) }, [])
      else (s, [])
  | .start exchange symbol =>
      match s.running (runningKey exchange symbol) with
      | some _ => (s, [])
      | none =>
          ({ s with
              running := Function.update s.running (runningKey exchange symbol)
                (some ⟨exchange, symbol, none, .idle⟩) }, [])
  | .stop key => ({ s with running := Function.update s.running key none }, [])
  | .turn key t =>
      match s.running key with
      | none => (s, [])
      | some l =>
          ({ s with
              service := (turn C s l t).1
              running := Function.update s.running key (some (turn C s l t).2.1) },
            (turn C s l t).2.2)

def initial (service : Inference.Service A) : State A := ⟨fun _ => none, service, fun _ => none⟩

/-! ### The regime of a history -/

/-- A regime that reached the key. -/
def publication (C : Setup A) (key : String) : Event A → Option (ℕ × Regime)
  | .publish nowMs exchange symbol stream stored =>
      if stored ∧ regimeKey exchange symbol = key then
        some (nowMs, Regime.classify C.roots C.parseFloat C.config stream)
      else none
  | _ => none

def lastPublication (C : Setup A) (key : String) (es : List (Event A)) : Option (ℕ × Regime) :=
  (es.filterMap (publication C key)).getLast?

/-- The regime last published within the time to live; otherwise the market is taken to range. -/
def regimeAt (C : Setup A) (es : List (Event A)) (key : String) (nowMs : ℕ) : Regime :=
  match lastPublication C key es with
  | some (published, regime) => if nowMs < published + ttlMs C then regime else .ranging
  | none => .ranging

/-! ### What a step does -/

variable {C : Setup A} {s : State A} {e : Event A} {key : String} {service : Inference.Service A}
  {es : List (Event A)} {l l' : Loop}

theorem text_ne_empty (regime : Regime) : regime.text ≠ "" := by
  cases regime <;> decide

/-- What one event does to the loop of a key. -/
inductive Move (C : Setup A) (s : State A) (key : String) : Event A → Option Loop → Loop → Prop
  | kept {e : Event A} {l : Loop} : Move C s key e (some l) l
  | started {exchange symbol : String} (hkey : runningKey exchange symbol = key) :
      Move C s key (.start exchange symbol) none ⟨exchange, symbol, none, .idle⟩
  | fetched {l : Loop} {row : LatestRow} (hphase : l.phase = .idle) (hts : l.lastTs ≠ some row.ts) :
      Move C s key (.turn key (.fetch (some row))) (some l) { l with phase := .fetched row }
  | known {l : Loop} {row : LatestRow} {nowMs : ℕ} (hphase : l.phase = .fetched row) :
      Move C s key (.turn key (.getRegime nowMs)) (some l)
        { l with phase := .known row (getRegime s.redis l.exchange l.symbol nowMs) }
  | predicted {l : Loop} {row : LatestRow} {regime : String} {sig : Inference.Signal}
      (hphase : l.phase = .known row regime)
      (hsig : (Inference.predict C.models s.service row.columns l.exchange l.symbol regime).2.1 =
        some sig) :
      Move C s key (.turn key .predict) (some l)
        { l with phase := .sending (entryOf row.ts l.exchange l.symbol sig) }
  | sent {l : Loop} {entry : Entry} {replied : Bool} (hphase : l.phase = .sending entry) :
      Move C s key (.turn key (.xadd replied)) (some l)
        { l with lastTs := if replied then some entry.ts else l.lastTs, phase := .idle }
  | gaveUp {l : Loop} {t : Turn} : Move C s key (.turn key t) (some l) { l with phase := .idle }

theorem move_turn (l : Loop) (t : Turn) :
    Move C s key (.turn key t) (some l) (turn C s l t).2.1 := by
  unfold turn
  split
  · next hphase =>
      dsimp only
      split
      · exact .kept
      · next hts => exact .fetched hphase hts
  · next hphase => exact .known hphase
  · next row regime hphase =>
      rcases hpredict : Inference.predict C.models s.service row.columns l.exchange l.symbol regime
        with ⟨service, sig, u⟩
      cases sig with
      | none => exact .gaveUp
      | some sig => exact .predicted hphase (congrArg (fun r => r.2.1) hpredict)
  · next hphase => exact .sent hphase
  · exact .gaveUp
  · exact .kept

theorem move_update {key' : String} {found : Option Loop}
    (hfound : ∀ l', found = some l' → Move C s key' e (s.running key') l')
    (h : Function.update s.running key' found key = some l') :
    Move C s key e (s.running key) l' := by
  by_cases hkey : key = key'
  · subst hkey
    rw [Function.update_self] at h
    exact hfound l' h
  · rw [Function.update_of_ne hkey] at h
    exact h ▸ .kept

/-- A loop of the next state comes from the loop of the same key. -/
theorem move_of_step (h : (step C s e).1.running key = some l') :
    Move C s key e (s.running key) l' := by
  cases e with
  | service e => exact h ▸ .kept
  | publish nowMs exchange symbol stream stored =>
      cases stored <;> exact h ▸ .kept
  | start exchange symbol =>
      unfold step at h
      dsimp only at h
      split at h
      · exact h ▸ .kept
      · next hnone =>
          refine move_update (fun l' hl' => ?_) h
          rw [hnone]
          exact Option.some.inj hl' ▸ .started rfl
  | stop key' =>
      refine move_update (fun l' hl' => ?_) h
      cases hl'
  | turn key' t =>
      unfold step at h
      dsimp only at h
      split at h
      · exact h ▸ .kept
      · next l hl =>
          refine move_update (fun l' hl' => ?_) h
          rw [hl]
          exact Option.some.inj hl' ▸ move_turn l t

theorem sending_of_mem {sent : Sent} (h : sent ∈ (step C s e).2) :
    ∃ key replied l, e = .turn key (.xadd replied) ∧ s.running key = some l ∧
      l.phase = .sending sent.entry ∧ sent.stream = streamKey l.symbol ∧
      (step C s e).2 = [sent] := by
  cases e with
  | service e => exact absurd h List.not_mem_nil
  | publish nowMs exchange symbol stream stored =>
      cases stored <;> exact absurd h List.not_mem_nil
  | start exchange symbol =>
      unfold step at h
      dsimp only at h
      split at h <;> exact absurd h List.not_mem_nil
  | stop key => exact absurd h List.not_mem_nil
  | turn key t =>
      unfold step at h ⊢
      dsimp only at h ⊢
      split at h
      · exact absurd h List.not_mem_nil
      · next l hl =>
          unfold turn at h
          split at h
          · exact absurd h List.not_mem_nil
          · exact absurd h List.not_mem_nil
          · next row regime hphase =>
              dsimp only at h
              split at h <;> exact absurd h List.not_mem_nil
          · next entry replied hphase =>
              obtain rfl := List.mem_singleton.mp h
              refine ⟨key, replied, l, rfl, hl, hphase, rfl, ?_⟩
              simp only [turn, hphase]
          · exact absurd h List.not_mem_nil
          · exact absurd h List.not_mem_nil

/-! ### The gate -/

theorem redis_step : (step C s e).1.redis key =
    match publication C key e with
    | some (nowMs, regime) => some (regime.text, nowMs + ttlMs C)
    | none => s.redis key := by
  cases e with
  | publish nowMs exchange symbol stream stored =>
      cases stored with
      | false => rfl
      | true =>
          by_cases hkey : regimeKey exchange symbol = key
          · subst hkey
            simp [step, publication]
          · simp [step, publication, hkey, Function.update_of_ne (Ne.symm hkey)]
  | start exchange symbol =>
      unfold step
      dsimp only
      split <;> rfl
  | turn key' t =>
      unfold step
      dsimp only
      split <;> rfl
  | _ => rfl

theorem redis_final (service : Inference.Service A) (es : List (Event A)) :
    (final (step C) (initial service) es).redis key =
      (lastPublication C key es).map fun p => (p.2.text, p.1 + ttlMs C) := by
  refine history_invariant (I := fun es (s : State A) => s.redis key =
    (lastPublication C key es).map fun p => (p.2.text, p.1 + ttlMs C)) rfl (fun es e ih => ?_) es
  rw [redis_step, ih, lastPublication, lastPublication, List.filterMap_append, List.getLast?_append]
  cases hpub : publication C key e with
  | none => simp [hpub]
  | some p => simp [hpub]

theorem getRegime_final (exchange symbol : String) (nowMs : ℕ) :
    getRegime (final (step C) (initial service) es).redis exchange symbol nowMs =
      (regimeAt C es (regimeKey exchange symbol) nowMs).text := by
  rw [getRegime, redis_final, regimeAt]
  cases lastPublication C (regimeKey exchange symbol) es with
  | none => rfl
  | some p =>
      simp only [Option.map_some, text_ne_empty, ne_eq, not_false_eq_true, and_true]
      split <;> rfl

/-- A loop has read the regime of its stream after it had fetched the row. -/
def Knows (C : Setup A) (es : List (Event A)) (key exchange symbol : String) (row : LatestRow)
    (regime : String) : Prop :=
  ∃ pre nowMs post, es = pre ++ .turn key (.getRegime nowMs) :: post ∧
    .turn key (.fetch (some row)) ∈ pre ∧
    regime = (regimeAt C pre (regimeKey exchange symbol) nowMs).text

/-- A loop has asked for a signal under a regime it had read. -/
def Made (C : Setup A) (service : Inference.Service A) (es : List (Event A))
    (key exchange symbol : String) (entry : Entry) : Prop :=
  ∃ pre post row regime sig, es = pre ++ .turn key .predict :: post ∧
    Knows C pre key exchange symbol row regime ∧
    (Inference.predict C.models (final (step C) (initial service) pre).service row.columns exchange
      symbol regime).2.1 = some sig ∧
    entry = entryOf row.ts exchange symbol sig

/-- Where a loop waits tells what it has done. -/
def Explained (C : Setup A) (service : Inference.Service A) (es : List (Event A)) (key : String)
    (l : Loop) : Prop :=
  match l.phase with
  | .idle => True
  | .fetched row => .turn key (.fetch (some row)) ∈ es
  | .known row regime => Knows C es key l.exchange l.symbol row regime
  | .sending entry => Made C service es key l.exchange l.symbol entry

theorem Knows.append {exchange symbol regime : String} {row : LatestRow} (fs : List (Event A))
    (h : Knows C es key exchange symbol row regime) :
    Knows C (es ++ fs) key exchange symbol row regime := by
  obtain ⟨pre, nowMs, post, rfl, hrow, hregime⟩ := h
  exact ⟨pre, nowMs, post ++ fs, by simp, hrow, hregime⟩

theorem Made.append {exchange symbol : String} {entry : Entry} (fs : List (Event A))
    (h : Made C service es key exchange symbol entry) :
    Made C service (es ++ fs) key exchange symbol entry := by
  obtain ⟨pre, post, row, regime, sig, rfl, h⟩ := h
  exact ⟨pre, post ++ fs, row, regime, sig, by simp, h⟩

theorem Explained.append (fs : List (Event A)) (h : Explained C service es key l) :
    Explained C service (es ++ fs) key l := by
  unfold Explained at h ⊢
  split
  · trivial
  · next hphase =>
      rw [hphase] at h
      exact List.mem_append_left fs h
  · next hphase =>
      rw [hphase] at h
      exact Knows.append fs h
  · next hphase =>
      rw [hphase] at h
      exact Made.append fs h

theorem explained_final (service : Inference.Service A) (es : List (Event A)) :
    ∀ key l, (final (step C) (initial service) es).running key = some l →
      Explained C service es key l := by
  refine history_invariant (I := fun es (s : State A) => ∀ key l, s.running key = some l →
    Explained C service es key l) (fun key l h => by cases h) (fun es e ih key l' h => ?_) es
  have hmove := move_of_step h
  cases hl : (final (step C) (initial service) es).running key with
  | none =>
      rw [hl] at hmove
      cases hmove with
      | started hkey => trivial
  | some l =>
      have hpast := ih key l hl
      rw [hl] at hmove
      cases hmove with
      | kept => exact hpast.append [e]
      | fetched hphase hts => exact List.mem_append_right es List.mem_cons_self
      | known hphase =>
          simp only [Explained, hphase] at hpast
          exact ⟨es, _, [], rfl, hpast, getRegime_final _ _ _⟩
      | predicted hphase hsig =>
          simp only [Explained, hphase] at hpast
          exact ⟨es, [], _, _, _, rfl, hpast, hsig, rfl⟩
      | sent hphase => trivial
      | gaveUp => trivial

/-- The loops stand under their own keys, and send entries of their own. -/
def Named (s : State A) : Prop :=
  ∀ key l, s.running key = some l → runningKey l.exchange l.symbol = key ∧
    ∀ entry, l.phase = .sending entry → entry.exchange = l.exchange ∧ entry.symbol = l.symbol

theorem named_final (service : Inference.Service A) (es : List (Event A)) :
    Named (final (step C) (initial service) es) := by
  refine final_invariant (I := Named) (fun s e ih key l' h => ?_) es (fun key l h => by cases h)
  have hmove := move_of_step h
  cases hl : s.running key with
  | none =>
      rw [hl] at hmove
      cases hmove with
      | started hkey => exact ⟨hkey, fun entry hphase => by cases hphase⟩
  | some l =>
      obtain ⟨hkey, hentry⟩ := ih key l hl
      rw [hl] at hmove
      cases hmove with
      | kept => exact ⟨hkey, hentry⟩
      | fetched | known | sent | gaveUp => exact ⟨hkey, fun entry hphase => by cases hphase⟩
      | predicted =>
          refine ⟨hkey, fun entry hphase => ?_⟩
          obtain rfl := Phase.sending.inj hphase
          exact ⟨rfl, rfl⟩

/-- **What a signal was made of.**  An entry that names a model or is not FLAT stands in the stream
of its symbol.  The loop of its key fetched the row of its time, then read the regime that the
classifier had last published within the time to live, or RANGING when there was none, then asked
the best candidate that the registry had for that regime.  The regime was not trending, nor was the
row. -/
theorem sent_under_regime (C : Setup A) (service : Inference.Service A) (es : List (Event A))
    {sent : Sent} (hsent : sent ∈ trace (step C) (initial service) es)
    (hnamed : sent.entry.modelId ≠ "" ∨ sent.entry.signal ≠ "FLAT") :
    ∃ key nowMs pre mid post regime row,
      es = pre ++ .turn key (.getRegime nowMs) :: mid ++ .turn key .predict :: post ∧
      runningKey sent.entry.exchange sent.entry.symbol = key ∧
      sent.stream = streamKey sent.entry.symbol ∧
      .turn key (.fetch (some row)) ∈ pre ∧ sent.entry.ts = row.ts ∧
      regime = regimeAt C pre (regimeKey sent.entry.exchange sent.entry.symbol) nowMs ∧
      regime ≠ .trendingUp ∧ regime ≠ .trendingDown ∧ sent.entry.regime = regime.text ∧
      (∀ hurst, row.columns "hurst_60" = some hurst → hurst < mkRat 1 2) ∧
      ∃ e ∈ Inference.candidates
          (final (step C) (initial service)
            (pre ++ .turn key (.getRegime nowMs) :: mid)).service.entries
          sent.entry.exchange sent.entry.symbol sent.entry.regime,
        sent.entry.modelId = e.id ∧
        ∀ e' ∈ Inference.candidates
            (final (step C) (initial service)
              (pre ++ .turn key (.getRegime nowMs) :: mid)).service.entries
            sent.entry.exchange sent.entry.symbol sent.entry.regime, e'.cvScore ≤ e.cvScore := by
  obtain ⟨xs, ys, htrace⟩ := List.append_of_mem hsent
  obtain ⟨es₁, e, es₂, us, vs, rfl, hstep, -, -⟩ := trace_eq_append_cons htrace
  obtain ⟨key, replied, l, rfl, hl, hphase, hstream, -⟩ :=
    sending_of_mem (hstep ▸ List.mem_append_right us List.mem_cons_self)
  have hkey : runningKey l.exchange l.symbol = key := (named_final service es₁ key l hl).1
  have hpast := explained_final service es₁ key l hl
  simp only [Explained, hphase] at hpast
  obtain ⟨_, post, row, regime, sig, rfl, ⟨pre, nowMs, mid, rfl, hrow, rfl⟩, hsig, hentry⟩ := hpast
  have hregime := Inference.regime_of_predict hsig
  rw [hentry] at hnamed ⊢
  have hsigNamed : sig.modelId.isSome ∨ sig.label ≠ "FLAT" := by
    refine hnamed.imp_left fun hid => ?_
    cases hmodel : sig.modelId with
    | none => exact absurd (by rw [entryOf, hmodel]; rfl) hid
    | some id => rfl
  obtain ⟨hgate, u, -, hmem, hbest, hask⟩ := Inference.asked_of_predict hsig hsigNamed
  obtain ⟨hid, -, -⟩ := Inference.ask_spec hask hsigNamed
  have htrend : ∀ trend : Regime, trend = .trendingUp ∨ trend = .trendingDown →
      regimeAt C pre (regimeKey l.exchange l.symbol) nowMs ≠ trend := by
    rintro trend htrend heq
    rw [heq] at hgate
    rcases htrend with rfl | rfl <;> simp [Inference.gated, Regime.text] at hgate
  have hhurst : ∀ hurst, row.columns "hurst_60" = some hurst → hurst < mkRat 1 2 := by
    intro hurst hrow
    simp only [Inference.gated, hrow, Option.any_some, decide_eq_true_eq, decide_eq_false_iff_not,
      not_or, not_le] at hgate
    exact hgate.2.2
  refine ⟨key, nowMs, pre, mid, post ++ .turn key (.xadd replied) :: es₂, _, row, by simp, hkey,
    hstream, hrow, rfl, rfl, htrend _ (.inl rfl), htrend _ (.inr rfl), hregime, hhurst, u.entry,
    ?_, ?_, ?_⟩
  · rw [entryOf, hregime]
    exact hmem
  · rw [entryOf, hid]
    rfl
  · rw [entryOf, hregime]
    exact hbest

/-! ### Rows -/

/-- The time of the row that an iteration is about. -/
def Phase.ts : Phase → Option String
  | idle => none
  | fetched row => some row.ts
  | known row _ => some row.ts
  | sending entry => some entry.ts

/-- The latest row of the table, as a loop finds it. -/
def fetchedTs (key : String) : Event A → Option String
  | .turn key' (.fetch (some row)) => if key' = key then some row.ts else none
  | _ => none

/-- The times of the entries of one loop. -/
def sentTs (key : String) (sents : List Sent) : List String :=
  (sents.filter fun sent => runningKey sent.entry.exchange sent.entry.symbol = key).map (·.entry.ts)

/-- What makes a loop forget the row that it has signalled. -/
def Event.Forgets (key : String) : Event A → Prop
  | .stop key' => key' = key
  | .turn key' (.xadd replied) => key' = key ∧ replied = false
  | _ => False

theorem step_xadd {entry : Entry} (hl : s.running key = some l) (hphase : l.phase = .sending entry)
    (replied : Bool) :
    step C s (.turn key (.xadd replied)) =
      ({ s with
          running := Function.update s.running key (some
            { l with lastTs := if replied then some entry.ts else l.lastTs, phase := .idle }) },
        [⟨streamKey l.symbol, entry⟩]) := by
  simp only [step, hl, turn, hphase]

theorem running_xadd {entry : Entry} (hl : s.running key = some l)
    (hphase : l.phase = .sending entry) (replied : Bool) :
    (step C s (.turn key (.xadd replied))).1.running key =
      some { l with lastTs := if replied then some entry.ts else l.lastTs, phase := .idle } := by
  rw [step_xadd hl hphase]
  exact Function.update_self _ _ _

theorem none_of_update {key' : String} {running : String → Option Loop}
    (h : Function.update running key' (some l) key = none) : running key = none := by
  by_cases hkey : key = key'
  · subst hkey
    rw [Function.update_self] at h
    cases h
  · rwa [Function.update_of_ne hkey] at h

theorem running_of_step (hforgets : ¬ e.Forgets key) (h : (step C s e).1.running key = none) :
    s.running key = none := by
  cases e with
  | service e => exact h
  | publish nowMs exchange symbol stream stored =>
      cases stored <;> exact h
  | start exchange symbol =>
      unfold step at h
      dsimp only at h
      split at h
      · exact h
      · exact none_of_update h
  | stop key' =>
      have hupdate : Function.update s.running key' none key = none := h
      rwa [Function.update_of_ne (Ne.symm hforgets)] at hupdate
  | turn key' t =>
      unfold step at h
      dsimp only at h
      split at h
      · exact h
      · exact none_of_update h

/-- The loop of a key adds an entry at this event. -/
def Sends (s : State A) (key : String) (e : Event A) : Prop :=
  ∃ replied l entry, e = .turn key (.xadd replied) ∧ s.running key = some l ∧
    l.phase = .sending entry

theorem sentTs_of_not_sends (hnamed : Named s) (h : ¬ Sends s key e) :
    sentTs key (step C s e).2 = [] := by
  refine List.map_eq_nil_iff.mpr (List.filter_eq_nil_iff.mpr fun sent hsent hkey => h ?_)
  obtain ⟨key', replied, l, rfl, hl, hphase, -, -⟩ := sending_of_mem hsent
  obtain ⟨hloop, hentry⟩ := hnamed key' l hl
  obtain ⟨hexchange, hsymbol⟩ := hentry sent.entry hphase
  rw [hexchange, hsymbol, hloop, decide_eq_true_eq] at hkey
  subst hkey
  exact ⟨replied, l, sent.entry, rfl, hl, hphase⟩

/-- What is known of the entries of a loop: they are of rows that it fetched, in the order of
these. -/
structure Ordered (key : String) (rows times : List String) (s : State A) : Prop where
  fetched : ∀ t ∈ times, t ∈ rows
  sorted : times.Pairwise (· ≤ ·)
  pending : ∀ l, s.running key = some l → ∀ t, l.phase.ts = some t →
    t ∈ rows ∧ ∀ t' ∈ times, t' ≤ t

/-- A loop that forgets nothing knows the last of them. -/
structure Once (key : String) (times : List String) (s : State A) : Prop where
  nodup : times.Nodup
  unborn : s.running key = none → times = []
  last : ∀ l, s.running key = some l → l.lastTs = times.getLast? ∧
    ∀ t, l.phase.ts = some t → t ∉ times

theorem sentTs_append (key : String) (xs ys : List Sent) :
    sentTs key (xs ++ ys) = sentTs key xs ++ sentTs key ys := by
  rw [sentTs, List.filter_append, List.map_append]
  rfl

theorem sentTs_own {entry : Entry} (hnamed : Named s) (hl : s.running key = some l)
    (hphase : l.phase = .sending entry) :
    sentTs key [⟨streamKey l.symbol, entry⟩] = [entry.ts] := by
  obtain ⟨hloop, hentry⟩ := hnamed key l hl
  obtain ⟨hexchange, hsymbol⟩ := hentry entry hphase
  simp [sentTs, hexchange, hsymbol, hloop]

theorem getLast?_eq_of_le {times : List String} (hsorted : times.Pairwise (· ≤ ·)) {t : String}
    (ht : t ∈ times) (hmax : ∀ t' ∈ times, t' ≤ t) : times.getLast? = some t := by
  induction times using List.reverseRecOn with
  | nil => cases ht
  | append_singleton times x =>
      rw [List.getLast?_concat]
      obtain ⟨-, -, hle⟩ := List.pairwise_append.mp hsorted
      have hxt := hmax x (List.mem_append_right times List.mem_cons_self)
      rcases List.mem_append.mp ht with ht | ht
      · exact congrArg some (le_antisymm hxt (hle t ht x List.mem_cons_self))
      · rw [List.mem_singleton.mp ht]

section

variable {rows times : List String}

theorem Ordered.step_sends {entry : Entry} (h : Ordered key rows times s)
    (hl : s.running key = some l) (hphase : l.phase = .sending entry) (replied : Bool) :
    Ordered key rows (times ++ [entry.ts]) (step C s (.turn key (.xadd replied))).1 := by
  obtain ⟨hrow, hle⟩ := h.pending l hl entry.ts (by rw [hphase]; rfl)
  refine ⟨?_, ?_, ?_⟩
  · intro t ht
    rcases List.mem_append.mp ht with ht | ht
    · exact h.fetched t ht
    · exact List.mem_singleton.mp ht ▸ hrow
  · refine List.pairwise_append.mpr ⟨h.sorted, List.pairwise_singleton _ _, fun t ht t' ht' => ?_⟩
    exact List.mem_singleton.mp ht' ▸ hle t ht
  · intro l' hl' t ht
    rw [running_xadd hl hphase] at hl'
    obtain rfl := Option.some.inj hl'
    cases ht

theorem Ordered.step_quiet (h : Ordered key rows times s)
    (hmono : ∀ t, fetchedTs key e = some t → ∀ t' ∈ rows, t' ≤ t) :
    Ordered key (rows ++ (fetchedTs key e).toList) times (step C s e).1 := by
  refine ⟨fun t ht => List.mem_append_left _ (h.fetched t ht), h.sorted, fun l' hl' t ht => ?_⟩
  have hmove := move_of_step hl'
  have hold : ∀ l, s.running key = some l → l.phase.ts = some t →
      t ∈ rows ++ (fetchedTs key e).toList ∧ ∀ t' ∈ times, t' ≤ t := by
    intro l hl ht
    exact (h.pending l hl t ht).imp_left (List.mem_append_left _)
  cases hl : s.running key with
  | none =>
      rw [hl] at hmove
      cases hmove with
      | started => cases ht
  | some l =>
      rw [hl] at hmove
      cases hmove with
      | kept => exact hold l' hl ht
      | fetched hphase hts =>
          obtain rfl := Option.some.inj ht
          have hfetch : ∀ row : LatestRow,
              fetchedTs key (.turn key (.fetch (some row)) : Event A) = some row.ts :=
            fun row => if_pos rfl
          rw [hfetch] at hmono ⊢
          exact ⟨List.mem_append_right _ List.mem_cons_self,
            fun t' ht' => hmono _ rfl t' (h.fetched t' ht')⟩
      | known hphase => exact hold l hl (by rw [hphase]; exact ht)
      | predicted hphase => exact hold l hl (by rw [hphase]; exact ht)
      | sent | gaveUp => cases ht

theorem Once.step_sends {entry : Entry} (h : Once key times s) (hl : s.running key = some l)
    (hphase : l.phase = .sending entry) :
    Once key (times ++ [entry.ts]) (step C s (.turn key (.xadd true))).1 := by
  obtain ⟨-, hnew⟩ := h.last l hl
  refine ⟨?_, ?_, ?_⟩
  · refine List.nodup_append'.mpr ⟨h.nodup, List.nodup_singleton _, ?_⟩
    exact List.disjoint_singleton.mpr (hnew entry.ts (by rw [hphase]; rfl))
  · intro hnone
    rw [running_xadd hl hphase] at hnone
    cases hnone
  · intro l' hl'
    rw [running_xadd hl hphase] at hl'
    obtain rfl := Option.some.inj hl'
    exact ⟨(List.getLast?_concat).symm, fun t ht => by cases ht⟩

theorem Once.step_quiet (h : Once key times s) (hord : Ordered key rows times s)
    (hquiet : ¬ Sends s key e) (hforgets : ¬ e.Forgets key)
    (hmono : ∀ t, fetchedTs key e = some t → ∀ t' ∈ rows, t' ≤ t) :
    Once key times (step C s e).1 := by
  refine ⟨h.nodup, fun hnone => h.unborn (running_of_step hforgets hnone), fun l' hl' => ?_⟩
  have hmove := move_of_step hl'
  cases hl : s.running key with
  | none =>
      rw [hl] at hmove
      rw [h.unborn hl]
      cases hmove with
      | started => exact ⟨rfl, fun t ht => by cases ht⟩
  | some l =>
      obtain ⟨hlast, hnew⟩ := h.last l hl
      rw [hl] at hmove
      cases hmove with
      | kept => exact ⟨hlast, hnew⟩
      | fetched hphase hts =>
          refine ⟨hlast, fun t ht hmem => hts ?_⟩
          obtain rfl := Option.some.inj ht
          rw [hlast]
          exact getLast?_eq_of_le hord.sorted hmem fun t' ht' =>
            hmono _ (if_pos rfl) t' (hord.fetched t' ht')
      | known hphase => exact ⟨hlast, fun t ht => hnew t (by rw [hphase]; exact ht)⟩
      | predicted hphase => exact ⟨hlast, fun t ht => hnew t (by rw [hphase]; exact ht)⟩
      | sent hphase => exact absurd ⟨_, l, _, rfl, hl, hphase⟩ hquiet
      | gaveUp => exact ⟨hlast, fun t ht => by cases ht⟩

end

theorem ordered_final (C : Setup A) (service : Inference.Service A) (key : String)
    (es : List (Event A)) :
    (es.filterMap (fetchedTs key)).Pairwise (· ≤ ·) →
      Ordered key (es.filterMap (fetchedTs key)) (sentTs key (trace (step C) (initial service) es))
          (final (step C) (initial service) es) ∧
        ((∀ e ∈ es, ¬ e.Forgets key) →
          Once key (sentTs key (trace (step C) (initial service) es))
            (final (step C) (initial service) es)) := by
  refine history_invariant (I := fun es (s : State A) =>
    (es.filterMap (fetchedTs key)).Pairwise (· ≤ ·) →
      Ordered key (es.filterMap (fetchedTs key))
          (sentTs key (trace (step C) (initial service) es)) s ∧
        ((∀ e ∈ es, ¬ e.Forgets key) →
          Once key (sentTs key (trace (step C) (initial service) es)) s)) ?_ ?_ es
  · intro _
    exact ⟨⟨fun t ht => absurd ht List.not_mem_nil, List.Pairwise.nil, fun l hl => by cases hl⟩,
      fun _ => ⟨List.nodup_nil, fun _ => rfl, fun l hl => by cases hl⟩⟩
  · intro es e ih hrows
    have hsplit : (es ++ [e]).filterMap (fetchedTs key) =
        es.filterMap (fetchedTs key) ++ (fetchedTs key e).toList := by
      rw [List.filterMap_append]
      exact congrArg _ (by cases h : fetchedTs key e <;> simp [h])
    rw [hsplit] at hrows ⊢
    obtain ⟨hpast, -, hle⟩ := List.pairwise_append.mp hrows
    have hmono : ∀ t, fetchedTs key e = some t → ∀ t' ∈ es.filterMap (fetchedTs key), t' ≤ t :=
      fun t ht t' ht' => hle t' ht' t (Option.mem_toList.mpr ht)
    obtain ⟨hord, honce⟩ := ih hpast
    rw [trace_append, trace_cons, trace_nil, List.append_nil, sentTs_append]
    have hearlier : (∀ e' ∈ es ++ [e], ¬ e'.Forgets key) → ∀ e' ∈ es, ¬ e'.Forgets key :=
      fun h e' he' => h e' (List.mem_append_left [e] he')
    by_cases hsends : Sends (final (step C) (initial service) es) key e
    · obtain ⟨replied, l, entry, rfl, hl, hphase⟩ := hsends
      have htimes : sentTs key
          (step C (final (step C) (initial service) es) (.turn key (.xadd replied))).2 =
            [entry.ts] := by
        rw [step_xadd hl hphase]
        exact sentTs_own (named_final service es) hl hphase
      rw [htimes]
      refine ⟨(List.append_nil _).symm ▸ hord.step_sends hl hphase replied, fun h => ?_⟩
      have hreplied : replied = true := by
        refine Bool.eq_true_of_not_eq_false fun hlost => ?_
        exact h _ (List.mem_append_right es List.mem_cons_self) ⟨rfl, hlost⟩
      subst hreplied
      exact (honce (hearlier h)).step_sends hl hphase
    · rw [sentTs_of_not_sends (named_final service es) hsends, List.append_nil]
      refine ⟨hord.step_quiet hmono, fun h => ?_⟩
      exact (honce (hearlier h)).step_quiet hord hsends
        (h e (List.mem_append_right es List.mem_cons_self)) hmono

/-- **The signals of a loop.**  When the latest row of the table never goes back, the signals of a
loop never go back.  No row is signalled twice while every reply arrives and nobody stops the loop.
-/
theorem sent_once (C : Setup A) (service : Inference.Service A) (key : String) (es : List (Event A))
    (hrows : (es.filterMap (fetchedTs key)).Pairwise (· ≤ ·)) :
    (sentTs key (trace (step C) (initial service) es)).Pairwise (· ≤ ·) ∧
      ((∀ e ∈ es, ¬ e.Forgets key) →
        (sentTs key (trace (step C) (initial service) es)).Nodup) := by
  obtain ⟨hord, honce⟩ := ordered_final C service key es hrows
  exact ⟨hord.sorted, fun h => (honce h).nodup⟩

end

/-! ### Two rows -/

def rangingSetup : Setup ℕ :=
  ⟨⟨fun x => x - 1, fun x => x⟩, fun _ => none, Regime.defaultConfig, Inference.oneAnswer⟩

/-- The first row is found twice. -/
def twoRows : List (Event ℕ) :=
  let first : LatestRow := ⟨"2026-01-01T00:00:00Z", fun _ => none⟩
  let second : LatestRow := ⟨"2026-01-01T00:00:01Z", fun _ => none⟩
  let turns : List Turn := [.fetch (some first), .getRegime 1000, .predict, .xadd true,
    .fetch (some first), .fetch (some second), .getRegime 200000, .predict, .xadd true]
  [.service (.train Registry.firstModel 1), .start "bybit" "BTCUSDT",
    .publish 0 "bybit" "BTCUSDT" none true] ++ turns.map (.turn "bybit:BTCUSDT")

theorem two_rows_once :
    (sentTs "bybit:BTCUSDT" (trace (step rangingSetup) (initial Inference.emptyService)
        twoRows)).Pairwise (· ≤ ·) ∧
      (sentTs "bybit:BTCUSDT" (trace (step rangingSetup) (initial Inference.emptyService)
        twoRows)).Nodup := by
  have hrows : (twoRows.filterMap (fetchedTs "bybit:BTCUSDT")).Pairwise (· ≤ ·) := by
    decide +kernel
  have hforgets : ∀ e ∈ twoRows, ¬ e.Forgets "bybit:BTCUSDT" := by
    simp [twoRows, Event.Forgets]
  have hsent := sent_once rangingSetup Inference.emptyService "bybit:BTCUSDT" twoRows hrows
  exact ⟨hsent.1, hsent.2 hforgets⟩

/-- The second row is signalled when the regime has expired. -/
theorem second_row_under_ranging : ∃ nowMs pre,
    pre ++ [.turn (runningKey "bybit" "BTCUSDT") (.getRegime nowMs)] <+: twoRows ∧
      regimeAt rangingSetup pre (regimeKey "bybit" "BTCUSDT") nowMs = .ranging := by
  have hsent : (⟨streamKey "BTCUSDT", entryOf "2026-01-01T00:00:01Z" "bybit" "BTCUSDT"
      ⟨"REVERT", 1, some "1", "RANGING", 0, 0⟩⟩ : Sent) ∈
        trace (step rangingSetup) (initial Inference.emptyService) twoRows := by decide +kernel
  obtain ⟨key, nowMs, pre, mid, post, regime, row, hes, hkey, -, -, -, hregime, -, -, htext, -⟩ :=
    sent_under_regime rangingSetup Inference.emptyService twoRows hsent (.inl (by decide))
  obtain rfl : runningKey "bybit" "BTCUSDT" = key := hkey
  refine ⟨nowMs, pre, ⟨mid ++ .turn (runningKey "bybit" "BTCUSDT") .predict :: post, ?_⟩, ?_⟩
  · rw [hes]
    simp
  · cases regime with
    | ranging => exact hregime.symm
    | _ => exact absurd htext (by decide)

end MagnumOpus.Stream.RegimeGate
