import Mathlib.Data.List.GetD
import Mathlib.Data.List.MinMax
import MagnumOpus.Ml.Registry

/-!
# Inference

`predict` (`inference/engine.py`) takes the best model of the registry for a regime and asks it
about a row.  It keeps the models that it has loaded, by the directory of their artifacts, until a
SIGHUP; the trainer writes the artifacts of a slot into the same directory every time.

* **Gates.** A signal that is not FLAT passed both gates and names the best candidate
  (`predict_spec`).
* **One model.** Between two SIGHUPs all predictions from a directory are made by one model, the one
  that the first of them found there.  After another training of the slot the signals name the new
  entry and are still made by the old model (`used_by_first`).
-/

namespace MagnumOpus
namespace Ml
namespace Inference

open EventMachine Registry

/-- What the artifacts of a model do; both may raise. -/
structure ModelOps (A : Type) where
  /-- `scaler.transform`. -/
  transform : A → List ℚ → Option (List ℚ)
  /-- `model.predict_proba`. -/
  predictProba : A → List ℚ → Option (List ℚ)

/-- `LABEL_REVERSE.get(label_idx, "FLAT")`. -/
def labelReverse : ℕ → String
  | 0 => "REVERT"
  | 2 => "TREND"
  | _ => "FLAT"

structure Signal where
  label : String
  confidence : ℚ
  modelId : Option String
  regime : String
  cluster : ℤ
  deviationBps : ℚ
  deriving DecidableEq

/-- The columns of a row; a missing number is `none`. -/
abbrev Row := String → Option ℚ

/-- `float(row.get(c) or 0.0)`. -/
def Row.value (row : Row) (c : String) : ℚ := (row c).getD 0

/-- `_flat_signal`. -/
def flatSignal (regime : String) (deviationBps : ℚ) : Signal :=
  ⟨"FLAT", 1, none, regime, -1, deviationBps⟩

/-- Both gates. -/
def gated (row : Row) (regime : String) : Bool :=
  regime = "TRENDING_UP" ∨ regime = "TRENDING_DOWN" ∨
    (row "hurst_60").any fun h => mkRat 1 2 ≤ h

def candidates (es : List Entry) (exchange symbol regime : String) : List Entry :=
  es.filter fun e =>
    e.exchange = exchange ∧ e.symbol = symbol ∧ e.regime = regime ∧ e.cluster ≠ -1

/-- `np.argmax`: the first place of the greatest number. -/
def argmaxIdx (proba : List ℚ) : Option ℕ :=
  (List.range proba.length).argmax fun i => proba.getD i 0

section

variable {A : Type}

/-- The registry, the artifacts on the disk and those in `_MODEL_CACHE`, by their directories.
Beside the artifacts stands the entry that they were trained for. -/
structure Service (A : Type) where
  entries : List Entry
  store : String → Option (String × A)
  cache : String → Option (String × A)

/-- `_load_artifacts`. -/
def loadArtifacts (s : Service A) (dir : String) : Service A × Option (String × A) :=
  match s.cache dir with
  | some found => (s, some found)
  | none =>
      match s.store dir with
      | some found => ({ s with cache := Function.update s.cache dir (some found) }, some found)
      | none => (s, none)

/-- The signal of the most probable label. -/
def answer (best : Entry) (regime : String) (deviationBps : ℚ) (proba : List ℚ) : Option Signal :=
  (argmaxIdx proba).map fun i =>
    ⟨labelReverse i, proba.getD i 0, some best.id, regime, best.cluster, deviationBps⟩

/-- What comes of a model; `none` when `scaler.transform` raises, which nobody catches. -/
def ask (M : ModelOps A) (a : A) (best : Entry) (row : Row) (regime : String) (deviationBps : ℚ) :
    Option Signal :=
  (M.transform a (best.featureNames.map row.value)).map fun x =>
    ((M.predictProba a x).bind (answer best regime deviationBps)).getD
      (flatSignal regime deviationBps)

/-- A model that a prediction was made by. -/
structure Use (A : Type) where
  entry : Entry
  model : String × A
  deriving DecidableEq

/-- `predict`: the signal, unless it raises, and the model that was asked. -/
def predict (M : ModelOps A) (s : Service A) (row : Row) (exchange symbol regime : String) :
    Service A × Option Signal × Option (Use A) :=
  let deviationBps := row.value "microprice_mid_delta"
  if gated row regime then (s, some (flatSignal regime deviationBps), none)
  else
    match (candidates s.entries exchange symbol regime).argmax Entry.cvScore with
    | none => (s, some (flatSignal regime deviationBps), none)
    | some best =>
        match loadArtifacts s best.artifactDir with
        | (s, none) => (s, some (flatSignal regime deviationBps), none)
        | (s, some found) =>
            (s, ask M found.2 best row regime deviationBps, some ⟨best, found⟩)

/-! ### What a signal says -/

theorem not_named_flatSignal (regime : String) (deviationBps : ℚ) :
    ¬ ((flatSignal regime deviationBps).modelId.isSome ∨
      (flatSignal regime deviationBps).label ≠ "FLAT") := by
  simp [flatSignal]

theorem argmaxIdx_spec {proba : List ℚ} {i : ℕ} (h : argmaxIdx proba = some i) :
    proba.getD i 0 ∈ proba ∧ ∀ p ∈ proba, p ≤ proba.getD i 0 := by
  have hi : i < proba.length := List.mem_range.mp (List.argmax_mem h)
  refine ⟨?_, fun p hp => ?_⟩
  · rw [List.getD_eq_getElem _ _ hi]
    exact List.getElem_mem hi
  · obtain ⟨j, hj, rfl⟩ := List.getElem_of_mem hp
    have hle := List.le_of_mem_argmax (List.mem_range.mpr hj) h
    rwa [List.getD_eq_getElem _ _ hj] at hle

/-- What a model is asked, and what a signal tells of its answer. -/
theorem ask_spec {M : ModelOps A} {a : A} {best : Entry} {row : Row} {regime : String}
    {deviationBps : ℚ} {signal : Signal} (h : ask M a best row regime deviationBps = some signal)
    (hnamed : signal.modelId.isSome ∨ signal.label ≠ "FLAT") :
    signal.modelId = some best.id ∧ signal.cluster = best.cluster ∧
      ∃ x proba, M.transform a (best.featureNames.map row.value) = some x ∧
        M.predictProba a x = some proba ∧ signal.confidence ∈ proba ∧
        ∀ p ∈ proba, p ≤ signal.confidence := by
  obtain ⟨x, hx, hsignal⟩ := Option.map_eq_some_iff.mp h
  cases hanswer : (M.predictProba a x).bind (answer best regime deviationBps) with
  | none =>
      rw [hanswer, Option.getD_none] at hsignal
      exact absurd (hsignal ▸ hnamed) (not_named_flatSignal regime deviationBps)
  | some signal' =>
      rw [hanswer, Option.getD_some] at hsignal
      obtain ⟨proba, hproba, hidx⟩ := Option.bind_eq_some_iff.mp (hsignal ▸ hanswer)
      obtain ⟨i, hi, rfl⟩ := Option.map_eq_some_iff.mp hidx
      exact ⟨rfl, rfl, x, proba, hx, hproba, argmaxIdx_spec hi⟩

theorem regime_of_predict {M : ModelOps A} {s : Service A} {row : Row}
    {exchange symbol regime : String} {signal : Signal}
    (h : (predict M s row exchange symbol regime).2.1 = some signal) :
    signal.regime = regime := by
  have hask : ∀ {a best deviationBps}, ask M a best row regime deviationBps = some signal →
      signal.regime = regime := by
    intro a best deviationBps hask
    obtain ⟨x, -, rfl⟩ := Option.map_eq_some_iff.mp hask
    cases hanswer : (M.predictProba a x).bind (answer best regime deviationBps) with
    | none => rfl
    | some signal =>
        obtain ⟨proba, -, hidx⟩ := Option.bind_eq_some_iff.mp hanswer
        obtain ⟨i, -, rfl⟩ := Option.map_eq_some_iff.mp hidx
        rfl
  unfold predict at h
  dsimp only at h
  split at h
  · exact Option.some.inj h ▸ rfl
  · split at h
    · exact Option.some.inj h ▸ rfl
    · split at h
      · exact Option.some.inj h ▸ rfl
      · exact hask h

/-- A signal that names a model, or is not FLAT, passed both gates and is the answer of the best
candidate. -/
theorem asked_of_predict {M : ModelOps A} {s : Service A} {row : Row}
    {exchange symbol regime : String} {signal : Signal}
    (h : (predict M s row exchange symbol regime).2.1 = some signal)
    (hnamed : signal.modelId.isSome ∨ signal.label ≠ "FLAT") :
    gated row regime = false ∧ ∃ u, (predict M s row exchange symbol regime).2.2 = some u ∧
      u.entry ∈ candidates s.entries exchange symbol regime ∧
      (∀ e ∈ candidates s.entries exchange symbol regime, e.cvScore ≤ u.entry.cvScore) ∧
      ask M u.model.2 u.entry row regime (row.value "microprice_mid_delta") = some signal := by
  have hflat : some signal ≠ some (flatSignal regime (row.value "microprice_mid_delta")) := by
    intro heq
    obtain rfl := Option.some.inj heq
    exact not_named_flatSignal _ _ hnamed
  unfold predict at h ⊢
  dsimp only at h ⊢
  split at h
  · exact absurd h.symm hflat
  · next hgate =>
      rw [if_neg hgate]
      refine ⟨by simpa using hgate, ?_⟩
      cases hbest : (candidates s.entries exchange symbol regime).argmax Entry.cvScore with
      | none =>
          rw [hbest] at h
          exact absurd h.symm hflat
      | some best =>
          rw [hbest] at h
          rcases hload : loadArtifacts s best.artifactDir with ⟨s', found⟩
          cases found with
          | none =>
              simp only [hload] at h
              exact absurd h.symm hflat
          | some found =>
              simp only [hload] at h ⊢
              exact ⟨_, rfl, List.argmax_mem hbest, fun e he => List.le_of_mem_argmax he hbest, h⟩

/-- **A signal that names a model, or is not FLAT, passed both gates and comes from the best
candidate; its confidence is the greatest probability.** -/
theorem predict_spec (M : ModelOps A) {s : Service A} {row : Row} {exchange symbol regime : String}
    {signal : Signal} (h : (predict M s row exchange symbol regime).2.1 = some signal)
    (hnamed : signal.modelId.isSome ∨ signal.label ≠ "FLAT") :
    gated row regime = false ∧ ∃ u, (predict M s row exchange symbol regime).2.2 = some u ∧
      u.entry ∈ candidates s.entries exchange symbol regime ∧
      (∀ e ∈ candidates s.entries exchange symbol regime, e.cvScore ≤ u.entry.cvScore) ∧
      signal.modelId = some u.entry.id ∧ signal.cluster = u.entry.cluster ∧
      ∃ x proba, M.transform u.model.2 (u.entry.featureNames.map row.value) = some x ∧
        M.predictProba u.model.2 x = some proba ∧ signal.confidence ∈ proba ∧
        ∀ p ∈ proba, p ≤ signal.confidence := by
  obtain ⟨hgate, u, hu, hmem, hbest, hask⟩ := asked_of_predict h hnamed
  exact ⟨hgate, u, hu, hmem, hbest, ask_spec hask hnamed⟩

/-! ### One model between two signals -/

/-- What happens to the service. -/
inductive Event (A : Type)
  /-- `/train` writes the artifacts of a result and enters it; it is a row of these. -/
  | train (e : Entry) (artifacts : A)
  | delete (id : String)
  /-- The manifest is loaded again, and `clear_cache` is called. -/
  | sighup
  | predict (row : Row) (exchange symbol regime : String)

def step (M : ModelOps A) : Step (Service A) (Event A) (Use A) := fun s e =>
  match e with
  | .train e artifacts =>
      ({ s with
          entries := upserted e s.entries
          store := Function.update s.store e.artifactDir (some (e.id, artifacts)) }, [])
  | .delete id =>
      match s.entries.find? (·.id = id) with
      | some e =>
          ({ s with
              entries := deleted id s.entries
              store := Function.update s.store e.artifactDir none }, [])
      | none => (s, [])
  | .sighup => ({ s with cache := fun _ => none }, [])
  | .predict row exchange symbol regime =>
      ((predict M s row exchange symbol regime).1,
        (predict M s row exchange symbol regime).2.2.toList)

/-- The artifacts of an entry are the ones trained for it. -/
structure Trained (root : String) (s : Service A) : Prop where
  oneEach : OneEach s.entries
  placed : ∀ e ∈ s.entries, Placed root e
  stored : ∀ e ∈ s.entries, (s.store e.artifactDir).map Prod.fst = some e.id

/-- The trainer's results name the directories that it writes. -/
def Event.Ok (root : String) : Event A → Prop
  | train e _ => Placed root e
  | _ => True

def Event.IsSighup : Event A → Prop
  | sighup => True
  | _ => False

variable {M : ModelOps A} {root : String} {s : Service A}

/-- A prediction comes from the cache, or from the disk into it; nothing else changes. -/
theorem predict_cases (row : Row) (exchange symbol regime : String) :
    ((predict M s row exchange symbol regime).2.2 = none ∧
        (predict M s row exchange symbol regime).1 = s) ∨
      ∃ u, (predict M s row exchange symbol regime).2.2 = some u ∧ u.entry ∈ s.entries ∧
        ((s.cache u.entry.artifactDir = some u.model ∧
            (predict M s row exchange symbol regime).1 = s) ∨
          (s.cache u.entry.artifactDir = none ∧ s.store u.entry.artifactDir = some u.model ∧
            (predict M s row exchange symbol regime).1 =
              { s with cache := Function.update s.cache u.entry.artifactDir (some u.model) })) := by
  unfold predict
  dsimp only
  split
  · exact .inl ⟨rfl, rfl⟩
  cases hbest : (candidates s.entries exchange symbol regime).argmax Entry.cvScore with
  | none => exact .inl ⟨rfl, rfl⟩
  | some best =>
      have hmem : best ∈ s.entries := List.mem_of_mem_filter (List.argmax_mem hbest)
      cases hcache : s.cache best.artifactDir with
      | some found =>
          simp only [loadArtifacts, hcache]
          exact .inr ⟨⟨best, found⟩, rfl, hmem, .inl ⟨hcache, trivial⟩⟩
      | none =>
          cases hstore : s.store best.artifactDir with
          | none =>
              simp only [loadArtifacts, hcache, hstore]
              exact .inl ⟨trivial, trivial⟩
          | some found =>
              simp only [loadArtifacts, hcache, hstore]
              exact .inr ⟨⟨best, found⟩, rfl, hmem, .inr ⟨hcache, hstore, rfl⟩⟩

theorem trained_train {e : Entry} (h : Trained root s) (he : Placed root e) (artifacts : A) :
    Trained root (step M s (.train e artifacts)).1 where
  oneEach := oneEach_upserted h.oneEach e
  placed := fun x hx => by
    rcases List.mem_append.mp hx with hx | hx
    · exact h.placed x (List.mem_of_mem_filter hx)
    · exact List.mem_singleton.mp hx ▸ he
  stored := fun x hx => by
    show (Function.update s.store e.artifactDir (some (e.id, artifacts)) x.artifactDir).map
      Prod.fst = some x.id
    rcases List.mem_append.mp hx with hx | hx
    · obtain ⟨hold, hother⟩ := List.mem_filter.mp hx
      have hdir : x.artifactDir ≠ e.artifactDir := fun hdir =>
        of_decide_eq_true hother (slot_eq_of_artifactDir (h.placed x hold) he hdir)
      rw [Function.update_of_ne hdir]
      exact h.stored x hold
    · obtain rfl := List.mem_singleton.mp hx
      rw [Function.update_self]
      rfl

theorem trained_delete (h : Trained root s) (id : String) :
    Trained root (step M s (.delete id)).1 := by
  unfold step
  dsimp only
  split
  · next e he =>
      have hmem : e ∈ s.entries := List.mem_of_find?_eq_some he
      have hid : e.id = id := by simpa using List.find?_some he
      refine ⟨oneEach_deleted h.oneEach id, fun x hx => h.placed x (List.mem_of_mem_filter hx),
        fun x hx => ?_⟩
      have hold : x ∈ s.entries := List.mem_of_mem_filter hx
      have hdir : x.artifactDir ≠ e.artifactDir := fun hdir => by
        have hslot := slot_eq_of_artifactDir (h.placed x hold) (h.placed e hmem) hdir
        have hxe := List.inj_on_of_nodup_map h.oneEach hold hmem hslot
        exact not_mem_deleted e s.entries (hid.symm ▸ hxe ▸ hx)
      show (Function.update s.store e.artifactDir none x.artifactDir).map Prod.fst = some x.id
      rw [Function.update_of_ne hdir]
      exact h.stored x hold
  · exact h

theorem trained_step (h : Trained root s) {e : Event A} (hok : e.Ok root) :
    Trained root (step M s e).1 := by
  cases e with
  | train e artifacts => exact trained_train h hok artifacts
  | delete id => exact trained_delete h id
  | sighup => exact ⟨h.oneEach, h.placed, h.stored⟩
  | predict row exchange symbol regime =>
      show Trained root (predict M s row exchange symbol regime).1
      rcases predict_cases (M := M) (s := s) row exchange symbol regime with
        ⟨-, hs⟩ | ⟨u, -, -, ⟨-, hs⟩ | ⟨-, -, hs⟩⟩
      · exact hs.symm ▸ h
      · exact hs.symm ▸ h
      · exact hs.symm ▸ ⟨h.oneEach, h.placed, h.stored⟩

theorem step_cases {e : Event A} (hsighup : ¬ e.IsSighup) :
    ((step M s e).2 = [] ∧ (step M s e).1.cache = s.cache) ∨
      ∃ u, (step M s e).2 = [u] ∧ u.entry ∈ s.entries ∧
        ((s.cache u.entry.artifactDir = some u.model ∧ (step M s e).1.cache = s.cache) ∨
          (s.cache u.entry.artifactDir = none ∧ s.store u.entry.artifactDir = some u.model ∧
            (step M s e).1.cache =
              Function.update s.cache u.entry.artifactDir (some u.model))) := by
  cases e with
  | train e artifacts => exact .inl ⟨rfl, rfl⟩
  | delete id =>
      unfold step
      dsimp only
      split <;> exact .inl ⟨rfl, rfl⟩
  | sighup => exact absurd trivial hsighup
  | predict row exchange symbol regime =>
      show (((predict M s row exchange symbol regime).2.2.toList = [] ∧
        (predict M s row exchange symbol regime).1.cache = s.cache) ∨
        ∃ u, (predict M s row exchange symbol regime).2.2.toList = [u] ∧ _)
      rcases predict_cases (M := M) (s := s) row exchange symbol regime with
        ⟨hnone, hs⟩ | ⟨u, hu, hmem, ⟨hcache, hs⟩ | ⟨hcache, hstore, hs⟩⟩
      · rw [hnone, hs]
        exact .inl ⟨rfl, rfl⟩
      · refine .inr ⟨u, by rw [hu]; rfl, hmem, .inl ⟨hcache, ?_⟩⟩
        exact congrArg Service.cache hs
      · refine .inr ⟨u, by rw [hu]; rfl, hmem, .inr ⟨hcache, hstore, ?_⟩⟩
        exact congrArg Service.cache hs

/-- The models of a run that starts with some models loaded. -/
theorem used_of_run {es : List (Event A)} (hsighup : ∀ e ∈ es, ¬ e.IsSighup)
    (hok : ∀ e ∈ es, e.Ok root) (h : Trained root s) :
    ∀ q ∈ trace (step M) s es, s.cache q.entry.artifactDir = some q.model ∨
      s.cache q.entry.artifactDir = none ∧ ∃ p,
        (trace (step M) s es).find? (·.entry.artifactDir = q.entry.artifactDir) = some p ∧
          q.model.1 = p.entry.id ∧ q.model = p.model := by
  induction es generalizing s with
  | nil => exact fun q hq => absurd hq List.not_mem_nil
  | cons e es ih =>
      have hrest := ih (fun e' he' => hsighup e' (List.mem_cons_of_mem e he'))
        (fun e' he' => hok e' (List.mem_cons_of_mem e he'))
        (trained_step (M := M) h (hok e List.mem_cons_self))
      rw [trace_cons]
      rcases step_cases (M := M) (s := s) (hsighup e List.mem_cons_self) with
        ⟨hnone, hcache⟩ | ⟨u, hu, hmem, ⟨hloaded, hcache⟩ | ⟨hempty, hstore, hcache⟩⟩
      · rw [hnone, List.nil_append]
        rw [hcache] at hrest
        exact hrest
      · rw [hu, List.singleton_append]
        rw [hcache] at hrest
        intro q hq
        rcases List.mem_cons.mp hq with rfl | hq
        · exact .inl hloaded
        · refine (hrest q hq).imp_right ?_
          rintro ⟨hnone, p, hp, hmodel⟩
          refine ⟨hnone, p, ?_, hmodel⟩
          have hdir : u.entry.artifactDir ≠ q.entry.artifactDir := fun hdir => by
            rw [← hdir, hloaded] at hnone
            cases hnone
          rw [List.find?_cons_of_neg (by simpa using hdir), hp]
      · -- The first prediction from its directory.
        have hid : u.model.1 = u.entry.id := by
          have hstored := h.stored u.entry hmem
          rw [hstore] at hstored
          exact Option.some.inj hstored
        rw [hu, List.singleton_append]
        rw [hcache] at hrest
        intro q hq
        by_cases hdir : u.entry.artifactDir = q.entry.artifactDir
        · refine .inr ⟨hdir ▸ hempty, u, List.find?_cons_of_pos (by simpa using hdir), ?_⟩
          rcases List.mem_cons.mp hq with rfl | hq
          · exact ⟨hid, rfl⟩
          · rcases hrest q hq with hcached | ⟨hnone, -⟩
            · rw [← hdir, Function.update_self] at hcached
              rw [← Option.some.inj hcached]
              exact ⟨hid, rfl⟩
            · rw [← hdir, Function.update_self] at hnone
              cases hnone
        · rcases List.mem_cons.mp hq with rfl | hq
          · exact absurd rfl hdir
          · have hq' := hrest q hq
            rw [Function.update_of_ne (Ne.symm hdir)] at hq'
            refine hq'.imp_right ?_
            rintro ⟨hnone, p, hp, hmodel⟩
            refine ⟨hnone, p, ?_, hmodel⟩
            rw [List.find?_cons_of_neg (by simpa using hdir), hp]

/-- **Between two signals all predictions from a directory are made by one model, that of the entry
which the first of them names.** -/
theorem used_by_first {es : List (Event A)} (hsighup : ∀ e ∈ es, ¬ e.IsSighup)
    (hok : ∀ e ∈ es, e.Ok root) (h : Trained root s) :
    ∀ q ∈ trace (step M) (step M s .sighup).1 es, ∃ p,
      (trace (step M) (step M s .sighup).1 es).find?
          (·.entry.artifactDir = q.entry.artifactDir) = some p ∧ q.model.1 = p.entry.id ∧
        q.model = p.model := by
  intro q hq
  have hstart : Trained root (step M s .sighup).1 := ⟨h.oneEach, h.placed, h.stored⟩
  rcases used_of_run hsighup hok hstart q hq with hcache | ⟨-, hfirst⟩
  · cases hcache
  · exact hfirst

end

/-! ### A second training -/

/-- Models that know one answer. -/
def oneAnswer : ModelOps ℕ where
  transform := fun _ x => some x
  predictProba := fun _ _ => some [1, 0, 0]

/-- A slot is trained, asked, trained again and asked again. -/
def trainedTwice : List (Event ℕ) :=
  [.train firstModel 1, .predict (fun _ => none) "bybit" "BTCUSDT" "RANGING", .train secondModel 2,
    .predict (fun _ => none) "bybit" "BTCUSDT" "RANGING"]

def emptyService : Service ℕ := ⟨[], fun _ => none, fun _ => none⟩

/-- The second signal names the second model and is made by the first one. -/
theorem second_signal_by_first_model : ∃ p,
    (trace (step oneAnswer) (step oneAnswer emptyService .sighup).1 trainedTwice).find?
        (·.entry.artifactDir = secondModel.artifactDir) = some p ∧ "1" = p.entry.id ∧
      ("1", 1) = p.model := by
  have htrained : Trained "models" emptyService :=
    ⟨List.nodup_nil, fun _ h => absurd h List.not_mem_nil, fun _ h => absurd h List.not_mem_nil⟩
  have hfirst : Placed "models" firstModel := ⟨by decide, by decide, by decide, by decide⟩
  have hsecond : Placed "models" secondModel := ⟨by decide, by decide, by decide, by decide⟩
  have hsighup : ∀ e ∈ trainedTwice, ¬ e.IsSighup := by
    simp [trainedTwice, Event.IsSighup]
  have hok : ∀ e ∈ trainedTwice, e.Ok "models" := by
    simp [trainedTwice, Event.Ok, hfirst, hsecond]
  exact used_by_first hsighup hok htrained ⟨secondModel, ("1", 1)⟩ (by decide +kernel)

/-- A row that passes both gates is labelled by the best model. -/
theorem reverting_row : gated (fun _ => none) "RANGING" = false ∧ ∃ u,
    (predict oneAnswer ⟨[firstModel], fun _ => some ("1", 1), fun _ => none⟩ (fun _ => none) "bybit"
      "BTCUSDT" "RANGING").2.2 = some u ∧
    u.entry ∈ candidates [firstModel] "bybit" "BTCUSDT" "RANGING" ∧
    (∀ e ∈ candidates [firstModel] "bybit" "BTCUSDT" "RANGING", e.cvScore ≤ u.entry.cvScore) ∧
    some "1" = some u.entry.id ∧ 0 = u.entry.cluster ∧
    ∃ x proba, oneAnswer.transform u.model.2 (u.entry.featureNames.map (Row.value fun _ => none)) =
        some x ∧ oneAnswer.predictProba u.model.2 x = some proba ∧ 1 ∈ proba ∧
          ∀ p ∈ proba, p ≤ 1 := by
  have hsignal : (predict oneAnswer ⟨[firstModel], fun _ => some ("1", 1), fun _ => none⟩
      (fun _ => none) "bybit" "BTCUSDT" "RANGING").2.1 =
        some ⟨"REVERT", 1, some "1", "RANGING", 0, 0⟩ := by decide +kernel
  exact predict_spec oneAnswer hsignal (.inl rfl)

end Inference
end Ml
end MagnumOpus
