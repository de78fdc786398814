import MagnumOpus.Lib.EventMachine
import Mathlib.Algebra.Order.Ring.Int
import Mathlib.Algebra.Order.GroupWithZero.Basic

/-! # The back-off of the KuCoin reconnect loop

`runLoop` and `sleepBackoff` of `kucoin.go`: when the connection goes down the adapter fetches a
token and dials again, without a limit on the number of attempts, and sleeps between two of them.

* **Arithmetic.** A `time.Duration` is a signed 64-bit number of nanoseconds: the shift and the
  product wrap, and the cap of a minute is compared with what is left.
* **The hope.** `Lawful`: in every outage the delays are at least a second, at most a minute, and
  do not fall.
* **When it holds.** Exactly when no attempt later than number 33 fails (`lawful_iff_along`): at
  number 34 the product is negative and the loop does not wait.  From number 55 on it is zero
  (`sleepBackoff_late`). -/

namespace MagnumOpus.Aggregator.KucoinBackoff

open EventMachine

/-- A `time.Duration`, in nanoseconds. -/
abbrev Duration := BitVec 64

/-- `time.Second`. -/
def second : Duration := 1000000000#64

/-- The duration `sleepBackoff` waits for.  A shift by 64 or more gives zero. -/
def sleepBackoff (attempt : BitVec 64) : Duration :=
  let d := (1#64 <<< attempt.toNat) * second
  if (60#64 * second).slt d then 60#64 * second else d

/-- Where `runLoop` is. -/
inductive Phase where
  | connected
  | reconnecting (attempt : BitVec 64)
  | returned
deriving DecidableEq

inductive Event where
  /-- The transport or the heartbeat asks for a new connection. -/
  | reconnect
  /-- `fetchToken` returns an error. -/
  | tokenFailed
  /-- A token is there, and `transport.Dial` returns an error. -/
  | dialFailed
  | dialed
  /-- The context of the adapter is cancelled. -/
  | cancelled
deriving DecidableEq

inductive Effect where
  /-- `emitNeedsSnapshot("disconnect")`. -/
  | needsSnapshot
  /-- The timer of `sleepBackoff` is set to `d`. -/
  | slept (d : Duration)
deriving DecidableEq

def step : Step Phase Event Effect
  | .connected, .reconnect => (.reconnecting 0, [.needsSnapshot])
  | .reconnecting attempt, .tokenFailed =>
      (.reconnecting (attempt + 1), [.slept (sleepBackoff attempt)])
  | .reconnecting attempt, .dialFailed =>
      (.reconnecting (attempt + 1), [.slept (sleepBackoff attempt)])
  | .reconnecting _, .dialed => (.connected, [])
  | .connected, .cancelled => (.returned, [])
  | .reconnecting _, .cancelled => (.returned, [])
  | s, _ => (s, [])

/-- Every delay is between a second and a minute, and in one outage none is shorter than the one
before it, `last` (zero where it is the first one). -/
def Lawful : ℤ → List Effect → Prop
  | _, [] => True
  | _, .needsSnapshot :: es => Lawful 0 es
  | last, .slept d :: es =>
      second.toInt ≤ d.toInt ∧ d.toInt ≤ 60 * second.toInt ∧ last ≤ d.toInt ∧ Lawful d.toInt es

instance decidableLawful : ∀ (es : List Effect) (last : ℤ), Decidable (Lawful last es)
  | [], _ => isTrue trivial
  | .needsSnapshot :: es, _ => decidableLawful es 0
  | .slept d :: es, _ => @instDecidableAnd _ _ _ (@instDecidableAnd _ _ _
      (@instDecidableAnd _ _ _ (decidableLawful es d.toInt)))

/-- The attempt that fails is not later than number 33. -/
def Early : Phase → Event → Prop
  | .reconnecting attempt, .tokenFailed => attempt.toNat ≤ 33
  | .reconnecting attempt, .dialFailed => attempt.toNat ≤ 33
  | _, _ => True

/-! ### One delay -/

theorem toInt_sleepBackoff_of_le {n : ℕ} (h : n ≤ 33) :
    (sleepBackoff (.ofNat 64 n)).toInt = min (2 ^ n) 60 * second.toInt := by
  have hall : ∀ i : Fin 34,
      (sleepBackoff (.ofNat 64 i)).toInt = min (2 ^ i.val) 60 * second.toInt := by
    decide
  exact hall ⟨n, by omega⟩

/-- Attempt 34 is the first whose product does not fit. -/
theorem toInt_sleepBackoff_first_wrap :
    (sleepBackoff (.ofNat 64 34)).toInt = 2 ^ 34 * second.toInt - 2 ^ 64 := by
  decide

/-- From attempt 55 on the shifted duration is a multiple of `2 ^ 64`. -/
theorem sleepBackoff_late {attempt : BitVec 64} (h : 55 ≤ attempt.toNat) :
    sleepBackoff attempt = 0 := by
  have hzero : (1#64 <<< attempt.toNat) * second = 0#64 := by
    obtain ⟨k, hk⟩ := Nat.exists_eq_add_of_le h
    have hdvd : 2 ^ 64 ∣ 2 ^ (55 + k) * 1000000000 :=
      ⟨2 ^ k * 1953125, by rw [Nat.pow_add]; omega⟩
    apply BitVec.eq_of_toNat_eq
    rw [BitVec.toNat_mul, BitVec.toNat_shiftLeft, hk, Nat.shiftLeft_eq, Nat.mod_mul_mod]
    exact Nat.mod_eq_zero_of_dvd (by simpa [second] using hdvd)
  simp only [sleepBackoff, hzero]
  decide

/-! ### A run of the adapter -/

/-- The delay before the attempt with the given number; zero where there is none. -/
def lastDelay : ℕ → ℤ
  | 0 => 0
  | n + 1 => min (2 ^ n) 60 * second.toInt

/-- What the state and the last delay of an outage have to do with each other. -/
def Counts (last : ℤ) : Phase → Prop
  | .reconnecting attempt => ∃ n ≤ 34, attempt = .ofNat 64 n ∧ last = lastDelay n
  | _ => True

theorem lastDelay_le_succ : ∀ n, lastDelay n ≤ lastDelay (n + 1)
  | 0 => by decide
  | n + 1 => by
      have hpow : (2 : ℤ) ^ n ≤ 2 ^ (n + 1) := pow_le_pow_right₀ (by decide) n.le_succ
      have hmin : min ((2 : ℤ) ^ n) 60 ≤ min (2 ^ (n + 1)) 60 := min_le_min_right 60 hpow
      exact Int.mul_le_mul_of_nonneg_right hmin (by decide)

theorem second_le_lastDelay (n : ℕ) : second.toInt ≤ lastDelay (n + 1) := by
  have hmin : (1 : ℤ) ≤ min (2 ^ n) 60 := le_min (one_le_pow₀ (by decide)) (by decide)
  exact le_of_eq_of_le (Int.one_mul _).symm (Int.mul_le_mul_of_nonneg_right hmin (by decide))

theorem lastDelay_le (n : ℕ) : lastDelay (n + 1) ≤ 60 * second.toInt :=
  Int.mul_le_mul_of_nonneg_right (min_le_right _ _) (by decide)

/-- One more failed attempt. -/
theorem lawful_slept_iff {n : ℕ} {es : List Effect} (h : n ≤ 34) :
    Lawful (lastDelay n) (.slept (sleepBackoff (.ofNat 64 n)) :: es) ↔
      n ≤ 33 ∧ Lawful (lastDelay (n + 1)) es := by
  rcases Nat.le_or_eq_of_le_succ h with hle | rfl
  · have hdelay : (sleepBackoff (.ofNat 64 n)).toInt = lastDelay (n + 1) :=
      toInt_sleepBackoff_of_le hle
    simp only [Lawful, hdelay, second_le_lastDelay, lastDelay_le, lastDelay_le_succ, hle, true_and]
  · refine iff_of_false (fun hlaw => ?_) fun hlaw => absurd hlaw.1 (by decide)
    exact absurd hlaw.1 (by decide)

theorem early_failed_iff {n : ℕ} (h : n ≤ 34) : (BitVec.ofNat 64 n).toNat ≤ 33 ↔ n ≤ 33 := by
  rw [BitVec.toNat_ofNat, Nat.mod_eq_of_lt (by omega)]

theorem lawful_iff_along_of_counts : ∀ (es : List Event) {s : Phase} {last : ℤ}, Counts last s →
    (Lawful last (trace step s es) ↔ Along step Early s es)
  | [], _, _, _ => iff_of_true trivial trivial
  | e :: es, s, last, hcounts => by
      have hother (s' : Phase) (last' : ℤ) (h : Counts last' s') :
          Lawful last' (trace step s' es) ↔ True ∧ Along step Early s' es := by
        rw [true_and, lawful_iff_along_of_counts es h]
      have hfailed (n : ℕ) (hn : n ≤ 34) :
          Lawful (lastDelay n) (.slept (sleepBackoff (.ofNat 64 n)) ::
            trace step (.reconnecting (.ofNat 64 n + 1)) es) ↔
          (BitVec.ofNat 64 n).toNat ≤ 33 ∧
            Along step Early (.reconnecting (.ofNat 64 n + 1)) es := by
        rw [lawful_slept_iff hn, early_failed_iff hn]
        exact and_congr_right fun hle =>
          lawful_iff_along_of_counts es ⟨n + 1, by omega, (BitVec.ofNat_add n 1).symm, rfl⟩
      cases s with
      | connected =>
          cases e with
          | reconnect => exact hother (.reconnecting 0) 0 ⟨0, by decide, rfl, rfl⟩
          | cancelled => exact hother .returned last trivial
          | _ => exact hother .connected last trivial
      | reconnecting attempt =>
          obtain ⟨n, hn, rfl, rfl⟩ := hcounts
          cases e with
          | tokenFailed => exact hfailed n hn
          | dialFailed => exact hfailed n hn
          | reconnect => exact hother _ _ ⟨n, hn, rfl, rfl⟩
          | dialed => exact hother .connected _ trivial
          | cancelled => exact hother .returned _ trivial
      | returned => exact hother .returned last trivial

/-- **Reconnect delays**: they are lawful in the runs whose failed attempts are all early, and in
no other run. -/
theorem lawful_iff_along (es : List Event) :
    Lawful 0 (trace step .connected es) ↔ Along step Early .connected es :=
  lawful_iff_along_of_counts es trivial

/-- The 35th failure in a row, after half an hour: the delay is negative. -/
theorem not_lawful_long_outage :
    ¬ Lawful 0 (trace step .connected (.reconnect :: List.replicate 35 .dialFailed)) := by
  decide

end MagnumOpus.Aggregator.KucoinBackoff
