import MagnumOpus.Lib.EventMachine
import MagnumOpus.Candle.Cascade

/-! # Persistence of the cascade

An engine that is restored from its hashes should go on as if nothing had happened.

* **The purpose.** `Transparent`: whatever is asked of the two engines, the restored one returns the
  same bars of the timeframe as the one that was never restarted.
* **When it holds.** Exactly when no 1s bar since the timeframe's last close had a mean spread
  (`transparent_iff`): the spread sum and its count are not in the hash, everything else is
  (`accOfHash_toHash`). -/

namespace MagnumOpus.Candle.Cascade.Engine

open EventMachine Strconv

/-- Something asked of an engine. -/
inductive Call where
  | fold (bar : Candle.Bar) (tsSecMs : Int64)
  | currentBar (tf : TF)

def call : Step Engine Call Bar := fun e c =>
  match c with
  | .fold bar tsSecMs => e.fold bar tsSecMs
  | .currentBar tf => (e, [e.currentBar tf])

/-- A new engine with one timeframe restored from the hash of another engine. -/
def restored (C : FloatText) (e : Engine) (tf : TF) : Engine :=
  (new e.exchange e.symbol).restoreFromHash C tf (e.toHash C tf)

/-- The engines that come up: folds, and restores of engines that came up before. -/
inductive Reachable (C : FloatText) : Engine → Prop
  | new (exchange symbol : String) : Reachable C (new exchange symbol)
  | fold {e : Engine} (bar : Candle.Bar) (tsSecMs : Int64) :
      Reachable C e → Reachable C (e.fold bar tsSecMs).1
  | restore {e e' : Engine} (tf : TF) :
      Reachable C e → Reachable C e' → Reachable C (e'.restoreFromHash C tf (e.toHash C tf))

/-- The restored engine returns the same bars of the timeframe. -/
def Transparent (C : FloatText) (e : Engine) (tf : TF) : Prop :=
  ∀ calls, (trace call (restored C e tf) calls).filter (·.tf = tf) =
    (trace call e calls).filter (·.tf = tf)

variable {C : FloatText} {e e' : Engine} {tf : TF}

/-! ### What a hash keeps -/

/-- An accumulator without its spreads. -/
def withoutSpread (a : CascadeAcc) : CascadeAcc := { a with spreadSum := 0, spreadCount := 0 }

theorem parseFloatPtr_floatOrEmpty (f : Option ℚ) : parseFloatPtr C (floatOrEmpty C f) = f := by
  cases f with
  | none => rfl
  | some x =>
      show parseFloatPtr C (C.format x) = some x
      rw [parseFloatPtr, if_neg (C.format_ne_empty x), C.parse_format]

/-- **What is read from the hash is what was written, but for the spreads.** -/
theorem accOfHash_toHash (C : FloatText) (e : Engine) (tf : TF) :
    accOfHash C (e.toHash C tf) = withoutSpread (e.accs tf) := by
  simp [accOfHash, toHash, parseInt64, getString, floatField, List.lookup_cons,
    parseInt_formatInt, parseFloatPtr_floatOrEmpty, C.parse_format, withoutSpread]

theorem accs_restoreFromHash (e : Engine) (tf : TF) (fields : List (String × String)) :
    (e.restoreFromHash C tf fields).accs = Function.update e.accs tf (accOfHash C fields) := rfl

theorem accs_restored (C : FloatText) (e : Engine) (tf : TF) :
    (restored C e tf).accs tf = withoutSpread (e.accs tf) := by
  rw [restored, accs_restoreFromHash, Function.update_self, accOfHash_toHash]

theorem Reachable.spreadSum_eq_zero (h : Reachable C e) :
    ∀ tf, (e.accs tf).spreadCount = 0 → (e.accs tf).spreadSum = 0 := by
  induction h with
  | new _ _ => exact fun _ _ => rfl
  | @fold e bar tsSecMs _ ih =>
      intro tf h0
      cases hc : isBarClose tsSecMs tf with
      | true => rw [accs_fold_of_close hc]; rfl
      | false =>
          rw [accs_fold_of_not_close hc] at h0 ⊢
          cases hs : bar.spreadMean with
          | none =>
              simp only [CascadeAcc.fold, hs, Option.isSome_none, Bool.false_eq_true, if_false,
                add_zero, Option.getD_none] at h0 ⊢
              exact ih tf h0
          | some x =>
              simp only [CascadeAcc.fold, hs, Option.isSome_some, if_true] at h0
              exact absurd h0 (Nat.succ_ne_zero _)
  | @restore e e' tf' _ _ _ ih' =>
      intro tf h0
      rw [accs_restoreFromHash] at h0 ⊢
      by_cases htf : tf = tf'
      · subst htf
        rw [Function.update_self, accOfHash_toHash]
        rfl
      · rw [Function.update_of_ne htf] at h0 ⊢
        exact ih' tf h0

/-! ### Going on -/

/-- The two engines have the same state of a timeframe. -/
structure SameAcc (tf : TF) (e e' : Engine) : Prop where
  exchange : e'.exchange = e.exchange
  symbol : e'.symbol = e.symbol
  acc : e'.accs tf = e.accs tf

theorem SameAcc.call (h : SameAcc tf e e') (c : Call) :
    SameAcc tf (Engine.call e c).1 (Engine.call e' c).1 ∧
      (Engine.call e' c).2.filter (·.tf = tf) = (Engine.call e c).2.filter (·.tf = tf) := by
  cases c with
  | fold bar tsSecMs =>
      refine ⟨⟨h.exchange, h.symbol, ?_⟩, ?_⟩
      · show (if _ then _ else (e'.accs tf).fold bar) = if _ then _ else (e.accs tf).fold bar
        rw [h.acc]
      · show (e'.fold bar tsSecMs).2.filter _ = (e.fold bar tsSecMs).2.filter _
        rw [filter_fold, filter_fold, h.acc, h.exchange, h.symbol]
  | currentBar tf' =>
      refine ⟨h, ?_⟩
      show [e'.currentBar tf'].filter _ = [e.currentBar tf'].filter _
      by_cases htf : tf' = tf
      · subst htf
        rw [currentBar, currentBar, h.acc, h.exchange, h.symbol]
      · simp [currentBar, CascadeAcc.toBar, htf]

theorem SameAcc.trace (h : SameAcc tf e e') (calls : List Call) :
    (EventMachine.trace Engine.call e' calls).filter (·.tf = tf) =
      (EventMachine.trace Engine.call e calls).filter (·.tf = tf) := by
  induction calls generalizing e e' with
  | nil => rfl
  | cons c calls ih =>
      obtain ⟨hnext, hbars⟩ := h.call c
      rw [trace_cons, trace_cons, List.filter_append, List.filter_append, hbars, ih hnext]

/-- **An engine restored from the hash of a timeframe returns, for every sequence of later calls,
the bars of the engine that was never restarted, exactly when none of the 1s bars folded since the
last close had a mean spread.** -/
theorem transparent_iff (he : Reachable C e) (tf : TF) :
    Transparent C e tf ↔ (e.accs tf).spreadCount = 0 := by
  constructor
  · -- The bar in progress gives a lost spread away.
    intro h
    by_contra hne
    have hcur := h [.currentBar tf]
    simp [call, currentBar, CascadeAcc.toBar, accs_restored, withoutSpread,
      Nat.pos_of_ne_zero hne] at hcur
  · intro h0
    have hsame : SameAcc tf e (restored C e tf) := by
      refine ⟨rfl, rfl, ?_⟩
      rw [accs_restored, withoutSpread, ← h0, ← he.spreadSum_eq_zero tf h0]
    exact hsame.trace

/-- A second with trades and without quotes. -/
def unquoted (price volume : ℚ) : Candle.Bar where
  tsSecMs := 3600000
  openPrice := some price
  high := some price
  low := some price
  close := some price
  volume := some volume
  quoteVolume := some (price * volume)
  tradeCount := 1

/-- An engine without a mean spread goes on as before. -/
theorem unquoted_transparent :
    Transparent .fraction
      ((new "bybit" "BTC-USDT").fold (unquoted (7 / 2) (1 / 4)) 3600000).1 .tf1m :=
  (transparent_iff (.fold _ _ (.new _ _)) .tf1m).mpr rfl

/-- The mean spread of a bar is lost with a restart. -/
theorem spread_is_lost :
    ¬ Transparent .fraction
      ((new "bybit" "BTC-USDT").fold
        { tsSecMs := 3600000, spreadMean := some 1 } 3600000).1 .tf1m := by
  intro h
  have hcur := h [.currentBar .tf1m]
  rw [trace_cons, trace_cons] at hcur
  revert hcur
  decide +kernel

end MagnumOpus.Candle.Cascade.Engine
