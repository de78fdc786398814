import Mathlib.Algebra.Order.Field.Rat
import Mathlib.Data.Finset.Basic
import Mathlib.Data.Finset.Lattice.Lemmas
import Mathlib.Data.List.Nodup
import Mathlib.Tactic.IntervalCases
import MagnumOpus.Lib.EventMachine
import MagnumOpus.Lib.Interrupts

/-!
# The model registry

The registry holds the manifest of the trained models in memory and in `models.json`
(`registry/registry.py`).  `upsert` gives a slot its entry, `delete` takes an entry and its
artifacts away, and a SIGHUP loads the manifest from the disk again.  The endpoints run on the main
thread (`main.py`) and the lock is reentrant, so the handler of the signal may run between any two
statements of a call.

* **Under signals.** `upsert_done_iff` and `delete_done_iff` say exactly when a call does what it
  should; a signal at the wrong place brings a replaced entry back, loses the new one, or leaves an
  entry without artifacts.
* **Across crashes.** Where no signal strikes inside a call, the process may die anywhere: after a
  restart the manifest is the one after a part of the call's replacements (`registry_run`).
-/

namespace MagnumOpus
namespace Ml
namespace Registry

open EventMachine

/-- What one model is for. -/
structure Slot where
  exchange : String
  symbol : String
  regime : String
  cluster : ℤ
  deriving DecidableEq

structure Entry extends Slot where
  id : String
  modelType : String
  cvScore : ℚ
  nSamples : ℕ
  featureNames : List String
  shapSummary : List (String × ℚ)
  artifactDir : String
  createdAt : String
  deriving DecidableEq

/-- `models.json`. -/
inductive Manifest
  | missing
  | corrupt
  | entries (es : List Entry)
  deriving DecidableEq

/-- `_load`. -/
def Manifest.load : Manifest → List Entry
  | missing => []
  | corrupt => []
  | entries es => es

@[simp] theorem load_entries (es : List Entry) : (Manifest.entries es).load = es := rfl

/-- The registry's memory, the disk, and the locals of a call. -/
structure Process where
  /-- `_entries`. -/
  entries : List Entry
  disk : Manifest
  /-- The directories with artifacts. -/
  dirs : Finset String
  /-- The entries that the comprehension keeps. -/
  kept : List Entry := []
  /-- The argument of `_save`. -/
  saving : List Entry := []

/-! ### Statements -/

/-- `_entries = _load(_registry_path)`, as `init` and the handler of SIGHUP do it. -/
def reload (p : Process) : Process := { p with entries := p.disk.load }

/-- `[e for e in _entries if ...]`. -/
def keep (p : Entry → Bool) (s : Process) : Process := { s with kept := s.entries.filter p }

/-- `_entries[:] = ...`. -/
def assign (s : Process) : Process := { s with entries := s.kept }

/-- `_entries.append(entry)`. -/
def append (e : Entry) (s : Process) : Process := { s with entries := s.entries ++ [e] }

/-- `_save(_registry_path, _entries)` up to the rename: what is passed is not changed any more. -/
def pass (s : Process) : Process := { s with saving := s.entries }

/-- `tmp.rename(path)`. -/
def rename (s : Process) : Process := { s with disk := .entries s.saving }

/-- `shutil.rmtree(art_dir)`. -/
def rmtree (dir : String) (s : Process) : Process := { s with dirs := s.dirs.erase dir }

/-- The entry is not for the slot. -/
def otherSlot (slot : Slot) (e : Entry) : Bool := e.toSlot ≠ slot

def otherId (id : String) (e : Entry) : Bool := e.id ≠ id

/-- `upsert`. -/
def upsertBody (e : Entry) : List (Process → Process) :=
  [keep (otherSlot e.toSlot), assign, append e, pass, rename]

/-- `delete`, once it has found the entry. -/
def deleteBody (e : Entry) : List (Process → Process) :=
  [keep (otherId e.id), assign, pass, rename, rmtree e.artifactDir]

/-- The entries after `upsert`. -/
def upserted (e : Entry) (es : List Entry) : List Entry := es.filter (otherSlot e.toSlot) ++ [e]

def deleted (id : String) (es : List Entry) : List Entry := es.filter (otherId id)

/-- Memory and disk agree. -/
def Synced (s : Process) : Prop := s.entries = s.disk.load

/-! ### Calls and signals -/

theorem iterate_reload (n : ℕ) (es : List Entry) (disk : Manifest) (dirs : Finset String)
    (kept saving : List Entry) : reload^[n] ⟨es, disk, dirs, kept, saving⟩ =
      ⟨if n = 0 then es else disk.load, disk, dirs, kept, saving⟩ := by
  have hagain : ∀ s, reload (reload s) = reload s := fun _ => rfl
  rw [Interrupts.iterate_of_idempotent hagain]
  split <;> rfl

section Upsert

variable (s : Process) (e : Entry) (n₂ n₃ : ℕ)

/-- What is appended to. -/
def base : List Entry := if n₂ = 0 then s.entries.filter (otherSlot e.toSlot) else s.entries

/-- What is written. -/
def written : List Entry := if n₃ = 0 then base s e n₂ ++ [e] else s.entries

variable {s}

/-- What memory and disk are after `upsert`, with signals in front of its statements. -/
theorem run_upsertBody (h : Synced s) (n₀ n₁ n₄ n₅ : ℕ) :
    (Interrupts.run reload [n₀, n₁, n₂, n₃, n₄, n₅] (upsertBody e) s).entries =
        (if n₄ = 0 ∨ n₅ ≠ 0 then written s e n₂ n₃ else s.entries) ∧
      (Interrupts.run reload [n₀, n₁, n₂, n₃, n₄, n₅] (upsertBody e) s).disk =
        .entries (written s e n₂ n₃) := by
  obtain ⟨es, disk, dirs, kept, saving⟩ := s
  have hload : disk.load = es := h.symm
  simp only [upsertBody, Interrupts.run_cons_cons, Interrupts.run_cons_nil, iterate_reload, keep,
    assign, append, pass, rename, hload, ite_self, load_entries, written, base]
  by_cases h₄ : n₄ = 0 <;> by_cases h₅ : n₅ = 0 <;> simp [h₄, h₅]

variable {e}

theorem mem_upserted_self (es : List Entry) : e ∈ upserted e es :=
  List.mem_append_right _ (List.mem_singleton_self e)

theorem filter_otherSlot_eq_self {es : List Entry} {slot : Slot} :
    es.filter (otherSlot slot) = es ↔ ∀ x ∈ es, x.toSlot ≠ slot := by
  simp [List.filter_eq_self, otherSlot]

theorem written_eq_upserted_iff (hfresh : e ∉ s.entries) :
    written s e n₂ n₃ = upserted e s.entries ↔
      (n₂ = 0 ∨ ∀ x ∈ s.entries, x.toSlot ≠ e.toSlot) ∧ n₃ = 0 := by
  unfold written
  by_cases h₃ : n₃ = 0
  · rw [if_pos h₃, upserted, List.append_left_inj, base, and_iff_left h₃]
    by_cases h₂ : n₂ = 0
    · simp [h₂]
    · rw [if_neg h₂, eq_comm, filter_otherSlot_eq_self, or_iff_right h₂]
  · rw [if_neg h₃]
    refine iff_of_false (fun heq => hfresh ?_) fun h => h₃ h.2
    exact heq ▸ mem_upserted_self s.entries

/-- **Under signals `upsert` does what it should exactly when none strikes after the slot is
cleared and before the new entry is passed on, except that an empty slot may be cleared in vain,
and when one that strikes before the rename is followed by one after it.** -/
theorem upsert_done_iff (h : Synced s) (hfresh : e ∉ s.entries) (n₀ n₁ n₄ n₅ : ℕ) :
    (Interrupts.run reload [n₀, n₁, n₂, n₃, n₄, n₅] (upsertBody e) s).entries =
        upserted e s.entries ∧
      (Interrupts.run reload [n₀, n₁, n₂, n₃, n₄, n₅] (upsertBody e) s).disk =
        .entries (upserted e s.entries) ↔
    (n₂ = 0 ∨ ∀ x ∈ s.entries, x.toSlot ≠ e.toSlot) ∧ n₃ = 0 ∧ (n₄ = 0 ∨ n₅ ≠ 0) := by
  obtain ⟨hentries, hdisk⟩ := run_upsertBody e n₂ n₃ h n₀ n₁ n₄ n₅
  rw [hentries, hdisk, Manifest.entries.injEq, written_eq_upserted_iff n₂ n₃ hfresh]
  constructor
  · rintro ⟨hmemory, hempty, h₃⟩
    refine ⟨hempty, h₃, by_contra fun hlate => hfresh ?_⟩
    rw [if_neg hlate] at hmemory
    exact hmemory ▸ mem_upserted_self s.entries
  · rintro ⟨hempty, h₃, hlate⟩
    rw [if_pos hlate]
    have hwritten := (written_eq_upserted_iff n₂ n₃ hfresh).mpr ⟨hempty, h₃⟩
    exact ⟨hwritten, hempty, h₃⟩

/-- The entries of two models for one slot. -/
def firstModel : Entry :=
  ⟨⟨"bybit", "BTCUSDT", "RANGING", 0⟩, "1", "xgboost", 1, 500, ["ofi_l1"], [("ofi_l1", 1)],
    "models/bybit/BTCUSDT/RANGING/0", "2026-05-01"⟩

def secondModel : Entry := { firstModel with id := "2" }

/-- A signal after the slot is cleared brings the first model back. -/
theorem upsert_second_model :
    ¬ ((Interrupts.run reload [0, 0, 1, 0, 0, 0] (upsertBody secondModel)
            ⟨[firstModel], .entries [firstModel], ∅, [], []⟩).entries =
          upserted secondModel [firstModel] ∧
        (Interrupts.run reload [0, 0, 1, 0, 0, 0] (upsertBody secondModel)
            ⟨[firstModel], .entries [firstModel], ∅, [], []⟩).disk =
          .entries (upserted secondModel [firstModel])) := by
  have hfresh : secondModel ∉ [firstModel] := by decide
  have hsynced : Synced ⟨[firstModel], .entries [firstModel], ∅, [], []⟩ := rfl
  have hlaw := upsert_done_iff 1 0 hsynced hfresh 0 0 0 0
  exact fun h => absurd (hlaw.mp h).1 (by decide)

end Upsert

section Delete

variable {s : Process} {e : Entry}

/-- What memory, disk and artifacts are after `delete`, with signals in front of its statements. -/
theorem run_deleteBody (h : Synced s) (n₀ n₁ n₂ n₃ n₄ n₅ : ℕ) :
    (Interrupts.run reload [n₀, n₁, n₂, n₃, n₄, n₅] (deleteBody e) s).entries =
        (if n₂ = 0 ∧ (n₃ = 0 ∨ n₄ ≠ 0 ∨ n₅ ≠ 0) then deleted e.id s.entries else s.entries) ∧
      (Interrupts.run reload [n₀, n₁, n₂, n₃, n₄, n₅] (deleteBody e) s).disk =
        .entries (if n₂ = 0 then deleted e.id s.entries else s.entries) ∧
      (Interrupts.run reload [n₀, n₁, n₂, n₃, n₄, n₅] (deleteBody e) s).dirs =
        s.dirs.erase e.artifactDir := by
  obtain ⟨es, disk, dirs, kept, saving⟩ := s
  have hload : disk.load = es := h.symm
  simp only [deleteBody, Interrupts.run_cons_cons, Interrupts.run_cons_nil, iterate_reload, keep,
    assign, pass, rename, rmtree, hload, ite_self, load_entries, deleted]
  by_cases h₂ : n₂ = 0 <;> by_cases h₃ : n₃ = 0 <;> by_cases h₄ : n₄ = 0 <;>
    by_cases h₅ : n₅ = 0 <;> simp [h₂, h₃, h₄, h₅]

theorem not_mem_deleted (e : Entry) (es : List Entry) : e ∉ deleted e.id es := by
  simp [deleted, otherId]

theorem eq_deleted_iff {es : List Entry} (he : e ∈ es) (p : Prop) [Decidable p] :
    (if p then deleted e.id es else es) = deleted e.id es ↔ p := by
  by_cases hp : p
  · simp [hp]
  · rw [if_neg hp]
    exact iff_of_false (fun heq => not_mem_deleted e es (heq ▸ he)) hp

/-- **Under signals `delete` does what it should exactly when none strikes after the entry is taken
out of the list and before the list is passed on, and when one that strikes before the rename is
followed by one after it.  One that strikes there leaves the entry in the manifest without its
artifacts.** -/
theorem delete_done_iff (h : Synced s) (he : e ∈ s.entries) (n₀ n₁ n₂ n₃ n₄ n₅ : ℕ) :
    ((Interrupts.run reload [n₀, n₁, n₂, n₃, n₄, n₅] (deleteBody e) s).entries =
          deleted e.id s.entries ∧
        (Interrupts.run reload [n₀, n₁, n₂, n₃, n₄, n₅] (deleteBody e) s).disk =
          .entries (deleted e.id s.entries) ↔
      n₂ = 0 ∧ (n₃ = 0 ∨ n₄ ≠ 0 ∨ n₅ ≠ 0)) ∧
    (e ∈ (Interrupts.run reload [n₀, n₁, n₂, n₃, n₄, n₅] (deleteBody e) s).disk.load ∧
        e.artifactDir ∉ (Interrupts.run reload [n₀, n₁, n₂, n₃, n₄, n₅] (deleteBody e) s).dirs ↔
      n₂ ≠ 0) := by
  obtain ⟨hentries, hdisk, hdirs⟩ := run_deleteBody (e := e) h n₀ n₁ n₂ n₃ n₄ n₅
  rw [hentries, hdisk, hdirs, Manifest.entries.injEq, load_entries, eq_deleted_iff he,
    eq_deleted_iff he, and_iff_left (Finset.notMem_erase _ _)]
  refine ⟨and_iff_left_of_imp And.left, ?_⟩
  by_cases h₂ : n₂ = 0
  · rw [if_pos h₂]
    exact iff_of_false (not_mem_deleted e _) (not_not.mpr h₂)
  · rw [if_neg h₂]
    exact iff_of_true he h₂

/-- A signal after the entry is taken out of the list leaves it in the manifest. -/
theorem delete_first_model :
    firstModel ∈ (Interrupts.run reload [0, 0, 2, 0, 0, 0] (deleteBody firstModel)
        ⟨[firstModel], .entries [firstModel], {firstModel.artifactDir}, [], []⟩).disk.load ∧
      firstModel.artifactDir ∉ (Interrupts.run reload [0, 0, 2, 0, 0, 0] (deleteBody firstModel)
        ⟨[firstModel], .entries [firstModel], {firstModel.artifactDir}, [], []⟩).dirs :=
  (delete_done_iff (s := ⟨[firstModel], .entries [firstModel], {firstModel.artifactDir}, [], []⟩)
    rfl List.mem_cons_self 0 0 2 0 0 0).2.mpr (by decide)

end Delete

/-! ### Runs with crashes -/

/-- `art_dir` of the trainer. -/
def artifactDir (root : String) (slot : Slot) : String :=
  root ++ "/" ++ slot.exchange ++ "/" ++ slot.symbol ++ "/" ++ slot.regime ++ "/" ++
    toString slot.cluster

/-- A name that is one component of a path. -/
def Component (name : String) : Prop := '/' ∉ name.toList ∧ name ≠ "" ∧ name ≠ "."

instance (name : String) : Decidable (Component name) := inferInstanceAs (Decidable (_ ∧ _ ∧ _))

/-- The artifacts are where the trainer puts those of the slot. -/
structure Placed (root : String) (e : Entry) : Prop where
  exchange : Component e.exchange
  symbol : Component e.symbol
  regime : Component e.regime
  dir : e.artifactDir = artifactDir root e.toSlot

/-- A request to the service. -/
inductive Call
  /-- `/train`: the results of `run_training` for one symbol. -/
  | train (results : List Entry)
  /-- `/registry/{entry_id}`. -/
  | delete (id : String)

/-- The trainer writes the artifacts of a result. -/
def writeArtifacts (dir : String) (s : Process) : Process := { s with dirs := insert dir s.dirs }

/-- The statements of a call. -/
def Call.body (s : Process) : Call → List (Process → Process)
  | train results =>
      results.map (fun e => writeArtifacts e.artifactDir) ++ results.flatMap upsertBody
  | delete id =>
      match s.entries.find? (·.id = id) with
      | some e => deleteBody e
      | none => []

def exec (body : List (Process → Process)) (s : Process) : Process := body.foldl (fun s f => f s) s

/-- What is taken over into the manifest. -/
inductive Commit
  | upsert (e : Entry)
  | delete (id : String)

/-- The models by their slots. -/
abbrev Models := Slot → Option Entry

def Commit.apply (m : Models) : Commit → Models
  | upsert e => Function.update m e.toSlot (some e)
  | delete id => fun slot => (m slot).filter (otherId id)

/-- What happens to the service between requests. -/
inductive Event
  | call (c : Call)
  | sighup
  /-- The process dies after so many statements of a call, and is started again. -/
  | crash (c : Call) (k : ℕ)

/-- How many of a call's commits are on the disk after so many statements. -/
def Call.commits (k : ℕ) : Call → List Commit
  | train results => (results.take ((k - results.length) / 5)).map .upsert
  | delete id => if k < 4 then [] else [.delete id]

/-- One event, with the commits that it makes. -/
def step : Step Process Event Commit := fun s e =>
  match e with
  | .call c => (exec (c.body s) s, c.commits (c.body s).length)
  | .sighup => (reload s, [])
  | .crash c k => (reload (exec ((c.body s).take k) s), c.commits k)

/-! ### Models -/

/-- `get_model`. -/
def getModel (es : List Entry) : Models := fun slot => es.find? (·.toSlot = slot)

theorem getModel_upserted (e : Entry) (es : List Entry) :
    getModel (upserted e es) = (Commit.upsert e).apply (getModel es) := by
  funext slot
  rw [getModel, upserted, List.find?_append, Commit.apply]
  by_cases hslot : slot = e.toSlot
  · have hnone : (es.filter (otherSlot e.toSlot)).find? (·.toSlot = slot) = none := by
      refine List.find?_eq_none.mpr fun x hx => ?_
      have hother : x.toSlot ≠ e.toSlot := of_decide_eq_true (List.mem_filter.mp hx).2
      rwa [decide_eq_true_iff, hslot]
    rw [hnone, hslot, Function.update_self]
    simp
  · have hsame : (es.filter (otherSlot e.toSlot)).find? (·.toSlot = slot) =
        es.find? (·.toSlot = slot) := by
      rw [List.find?_filter]
      congr 1
      funext x
      by_cases hx : x.toSlot = slot
      · simp [otherSlot, hx, hslot]
      · simp [hx]
    rw [hsame, Function.update_of_ne hslot, List.find?_singleton,
      if_neg (by simpa using Ne.symm hslot), Option.or_none]
    rfl

/-- No slot has two entries. -/
def OneEach (es : List Entry) : Prop := (es.map Entry.toSlot).Nodup

theorem getModel_deleted (id : String) {es : List Entry} (h : OneEach es) :
    getModel (deleted id es) = (Commit.delete id).apply (getModel es) := by
  funext slot
  show (es.filter (otherId id)).find? (·.toSlot = slot) =
    (es.find? (·.toSlot = slot)).filter (otherId id)
  induction es with
  | nil => rfl
  | cons x es ih =>
      obtain ⟨hx, hes⟩ := List.nodup_cons.mp h
      by_cases hslot : x.toSlot = slot
      · have hnone : (es.filter (otherId id)).find? (fun e => decide (e.toSlot = slot)) = none := by
          refine List.find?_eq_none.mpr fun e he => ?_
          rw [decide_eq_true_iff]
          rintro rfl
          exact hx (hslot ▸ List.mem_map_of_mem (List.mem_of_mem_filter he))
        rw [List.find?_cons_of_pos (by simpa using hslot), List.filter_cons]
        split
        · next hid => simp [hslot, Option.filter, hid]
        · next hid => rw [hnone]; simp [Option.filter, hid]
      · rw [List.find?_cons_of_neg (by simpa using hslot), List.filter_cons]
        split
        · rw [List.find?_cons_of_neg (by simpa using hslot), ih hes]
        · exact ih hes

theorem oneEach_upserted {es : List Entry} (h : OneEach es) (e : Entry) :
    OneEach (upserted e es) := by
  rw [OneEach, upserted, List.map_append, List.nodup_append]
  refine ⟨(List.filter_sublist.map _).nodup h, List.nodup_singleton _, ?_⟩
  intro slot hslot slot' hslot'
  obtain ⟨x, hx, rfl⟩ := List.mem_map.mp hslot
  obtain rfl := List.mem_singleton.mp hslot'
  exact of_decide_eq_true (List.mem_filter.mp hx).2

theorem oneEach_deleted {es : List Entry} (h : OneEach es) (id : String) :
    OneEach (deleted id es) :=
  (List.filter_sublist.map _).nodup h

/-! ### Parts of calls -/

theorem exec_append (body body' : List (Process → Process)) (s : Process) :
    exec (body ++ body') s = exec body' (exec body s) := List.foldl_append

theorem exec_writeArtifacts (rs : List Entry) (s : Process) :
    exec (rs.map fun e => writeArtifacts e.artifactDir) s =
      { s with dirs := s.dirs ∪ (rs.map Entry.artifactDir).toFinset } := by
  induction rs generalizing s with
  | nil => simp [exec]
  | cons e rs ih =>
      rw [List.map_cons]
      refine (ih (writeArtifacts e.artifactDir s)).trans ?_
      simp [writeArtifacts, Finset.insert_union, Finset.union_insert]

/-- The entries after some replacements. -/
def upsertedAll (es rs : List Entry) : List Entry := rs.foldl (fun es e => upserted e es) es

/-- After any part of a row of `upsert`s those are on the disk that have come to their rename. -/
theorem load_exec_take (rs : List Entry) (k : ℕ) {s : Process} (h : Synced s) :
    (exec ((rs.flatMap upsertBody).take k) s).disk.load = upsertedAll s.entries (rs.take (k / 5)) ∧
      (exec ((rs.flatMap upsertBody).take k) s).dirs = s.dirs := by
  induction rs generalizing k s with
  | nil => simp [exec, upsertedAll, ← h.symm]
  | cons e rs ih =>
      rw [List.flatMap_cons, List.take_append]
      have hlen : (upsertBody e).length = 5 := rfl
      by_cases hk : k < 5
      · have hzero : k / 5 = 0 := by omega
        have hnone : (rs.flatMap upsertBody).take (k - 5) = [] := by
          rw [show k - 5 = 0 by omega, List.take_zero]
        rw [hlen, hnone, List.append_nil, hzero, List.take_zero]
        have hload : s.disk.load = s.entries := h.symm
        interval_cases k <;> exact ⟨hload, rfl⟩
      · rw [List.take_of_length_le (by omega), hlen, exec_append]
        have hsynced : Synced (exec (upsertBody e) s) := rfl
        obtain ⟨hdisk, hdirs⟩ := ih (k - 5) hsynced
        have hdiv : k / 5 = (k - 5) / 5 + 1 := by omega
        rw [hdisk, hdirs, hdiv, List.take_succ_cons]
        exact ⟨rfl, rfl⟩

theorem synced_exec_upserts (rs : List Entry) {s : Process} (h : Synced s) :
    Synced (exec (rs.flatMap upsertBody) s) := by
  induction rs generalizing s with
  | nil => exact h
  | cons e rs ih =>
      rw [List.flatMap_cons, exec_append]
      exact ih rfl

theorem exec_train_take (rs : List Entry) (k : ℕ) {s : Process} (h : Synced s) :
    (exec (((Call.train rs).body s).take k) s).disk.load =
        upsertedAll s.entries (rs.take ((k - rs.length) / 5)) ∧
      (exec (((Call.train rs).body s).take k) s).dirs =
        s.dirs ∪ ((rs.take k).map Entry.artifactDir).toFinset := by
  have hsplit : ((Call.train rs).body s).take k =
      (rs.take k).map (fun e => writeArtifacts e.artifactDir) ++
        (rs.flatMap upsertBody).take (k - rs.length) := by
    rw [Call.body, List.take_append, List.length_map, List.map_take]
  rw [hsplit, exec_append, exec_writeArtifacts]
  exact load_exec_take rs (k - rs.length) h

/-! ### Consistency -/

/-- Memory and disk agree, no slot has two entries, and every entry has its artifacts. -/
structure Consistent (root : String) (s : Process) : Prop where
  synced : Synced s
  oneEach : OneEach s.entries
  placed : ∀ e ∈ s.entries, Placed root e
  stored : ∀ e ∈ s.entries, e.artifactDir ∈ s.dirs

/-- The trainer's results name the directories that it writes. -/
def Event.Ok (root : String) : Event → Prop
  | call (.train rs) => ∀ e ∈ rs, Placed root e
  | crash (.train rs) _ => ∀ e ∈ rs, Placed root e
  | _ => True

theorem mem_upsertedAll {x : Entry} {es rs : List Entry} (h : x ∈ upsertedAll es rs) :
    x ∈ es ∨ x ∈ rs := by
  induction rs generalizing es with
  | nil => exact .inl h
  | cons e rs ih =>
      rcases ih h with hx | hx
      · rcases List.mem_append.mp hx with hx | hx
        · exact .inl (List.mem_of_mem_filter hx)
        · exact .inr (List.mem_cons.mpr (.inl (List.mem_singleton.mp hx)))
      · exact .inr (List.mem_cons_of_mem e hx)

theorem oneEach_upsertedAll {es : List Entry} (h : OneEach es) (rs : List Entry) :
    OneEach (upsertedAll es rs) := by
  induction rs generalizing es with
  | nil => exact h
  | cons e rs ih => exact ih (oneEach_upserted h e)

theorem getModel_upsertedAll (es rs : List Entry) :
    getModel (upsertedAll es rs) = (rs.map Commit.upsert).foldl Commit.apply (getModel es) := by
  induction rs generalizing es with
  | nil => rfl
  | cons e rs ih =>
      rw [List.map_cons, List.foldl_cons, ← getModel_upserted]
      exact ih (upserted e es)

/-! ### Directories -/

theorem append_slash_inj {a b c d : List Char} (ha : '/' ∉ a) (hc : '/' ∉ c)
    (h : a ++ '/' :: b = c ++ '/' :: d) : a = c ∧ b = d := by
  induction a generalizing c with
  | nil =>
      cases c with
      | nil => exact ⟨rfl, (List.cons.inj h).2⟩
      | cons x c => exact absurd ((List.cons.inj h).1 ▸ List.mem_cons_self) hc
  | cons y a ih =>
      cases c with
      | nil => exact absurd ((List.cons.inj h).1 ▸ List.mem_cons_self) ha
      | cons x c =>
          obtain ⟨hyx, hrest⟩ := List.cons.inj h
          obtain ⟨hac, hbd⟩ := ih (fun hm => ha (List.mem_cons_of_mem y hm))
            (fun hm => hc (List.mem_cons_of_mem x hm)) hrest
          exact ⟨by rw [hyx, hac], hbd⟩

theorem nat_repr_inj {m n : ℕ} (h : m.repr = n.repr) : m = n := by
  have hdigits : Nat.toDigits 10 m = Nat.toDigits 10 n := by
    rw [← Nat.toList_repr, ← Nat.toList_repr, h]
  calc m = Nat.ofDigitChars 10 (Nat.toDigits 10 m) 0 := Nat.ofDigitChars_ten_toDigits.symm
    _ = n := by rw [hdigits, Nat.ofDigitChars_ten_toDigits]

theorem repr_ne_minus (m n : ℕ) : m.repr ≠ "-" ++ n.repr := by
  intro h
  have hmem : '-' ∈ m.repr.toList := by
    rw [h, String.toList_append]
    exact List.mem_append_left _ (by decide)
  rw [Nat.toList_repr] at hmem
  exact absurd (Nat.isDigit_of_mem_toDigits (by decide) le_rfl hmem) (by decide)

theorem int_toString_inj {m n : ℤ} (h : toString m = toString n) : m = n := by
  cases m with
  | ofNat m =>
      cases n with
      | ofNat n => exact congrArg Int.ofNat (nat_repr_inj h)
      | negSucc n => exact absurd h (repr_ne_minus m (n + 1))
  | negSucc m =>
      cases n with
      | ofNat n => exact absurd h.symm (repr_ne_minus n (m + 1))
      | negSucc n =>
          have hlist : ("-" ++ (m + 1).repr).toList = ("-" ++ (n + 1).repr).toList :=
            congrArg String.toList h
          rw [String.toList_append, String.toList_append] at hlist
          have hrepr := nat_repr_inj (String.toList_inj.mp (List.append_cancel_left hlist))
          exact congrArg Int.negSucc (Nat.succ_injective hrepr)

/-- Different slots have different directories. -/
theorem slot_eq_of_artifactDir {root : String} {e f : Entry} (he : Placed root e)
    (hf : Placed root f) (h : e.artifactDir = f.artifactDir) : e.toSlot = f.toSlot := by
  have hslash : "/".toList = ['/'] := rfl
  rw [he.dir, hf.dir, artifactDir, artifactDir] at h
  have hlist := congrArg String.toList h
  simp only [String.toList_append, List.append_assoc, hslash, List.singleton_append] at hlist
  obtain ⟨-, hlist⟩ := List.cons.inj (List.append_cancel_left hlist)
  obtain ⟨hexchange, hlist⟩ := append_slash_inj he.exchange.1 hf.exchange.1 hlist
  obtain ⟨hsymbol, hlist⟩ := append_slash_inj he.symbol.1 hf.symbol.1 hlist
  obtain ⟨hregime, hcluster⟩ := append_slash_inj he.regime.1 hf.regime.1 hlist
  have hcluster' := int_toString_inj (String.toList_inj.mp hcluster)
  rw [String.toList_inj] at hexchange hsymbol hregime
  calc e.toSlot = ⟨e.exchange, e.symbol, e.regime, e.cluster⟩ := rfl
    _ = ⟨f.exchange, f.symbol, f.regime, f.cluster⟩ := by
        rw [hexchange, hsymbol, hregime, hcluster']

/-! ### Runs -/

variable {root : String} {s : Process}

theorem consistent_train {rs : List Entry} (h : Consistent root s) (hrs : ∀ e ∈ rs, Placed root e)
    (k : ℕ) : Consistent root (reload (exec (((Call.train rs).body s).take k) s)) := by
  obtain ⟨hdisk, hdirs⟩ := exec_train_take rs k h.synced
  have hentries : (reload (exec (((Call.train rs).body s).take k) s)).entries =
      upsertedAll s.entries (rs.take ((k - rs.length) / 5)) := hdisk
  have hplaced : ∀ e ∈ rs.take ((k - rs.length) / 5), Placed root e :=
    fun e he => hrs e (List.mem_of_mem_take he)
  refine ⟨rfl, hentries ▸ oneEach_upsertedAll h.oneEach _, fun e he => ?_, fun e he => ?_⟩
  · rcases mem_upsertedAll (hentries ▸ he) with he | he
    · exact h.placed e he
    · exact hplaced e he
  · show e.artifactDir ∈ (exec (((Call.train rs).body s).take k) s).dirs
    rw [hdirs]
    rcases mem_upsertedAll (hentries ▸ he) with he | he
    · exact Finset.mem_union_left _ (h.stored e he)
    · -- A result in the manifest comes after all artifacts.
      have hall : rs.take k = rs := by
        refine List.take_of_length_le (le_of_not_gt fun hlt => ?_)
        rw [show (k - rs.length) / 5 = 0 by omega, List.take_zero] at he
        cases he
      rw [hall]
      exact Finset.mem_union_right _ (List.mem_toFinset.mpr
        (List.mem_map_of_mem (List.mem_of_mem_take he)))

theorem exec_delete_take {id : String} {e : Entry} (h : Synced s)
    (he : s.entries.find? (·.id = id) = some e) (k : ℕ) :
    (exec (((Call.delete id).body s).take k) s).disk.load =
        (if k < 4 then s.entries else deleted id s.entries) ∧
      (exec (((Call.delete id).body s).take k) s).dirs =
        (if k < 5 then s.dirs else s.dirs.erase e.artifactDir) := by
  have hbody : (Call.delete id).body s = deleteBody e := by rw [Call.body, he]
  have hid : e.id = id := by simpa using List.find?_some he
  have hload : s.disk.load = s.entries := h.symm
  rw [hbody, ← hid]
  by_cases hk : k < 5
  · interval_cases k <;> exact ⟨by first | exact hload | rfl, rfl⟩
  · rw [List.take_of_length_le (show (deleteBody e).length ≤ k from not_lt.mp hk),
      if_neg (by omega), if_neg hk]
    exact ⟨rfl, rfl⟩

theorem consistent_delete (h : Consistent root s) (id : String) (k : ℕ) :
    Consistent root (reload (exec (((Call.delete id).body s).take k) s)) ∧
      getModel (reload (exec (((Call.delete id).body s).take k) s)).entries =
        ((Call.delete id).commits k).foldl Commit.apply (getModel s.entries) := by
  cases he : s.entries.find? (·.id = id) with
  | none =>
      have hbody : (Call.delete id).body s = [] := by rw [Call.body, he]
      have hdeleted : deleted id s.entries = s.entries := by
        refine List.filter_eq_self.mpr fun e hmem => ?_
        simpa [otherId] using List.find?_eq_none.mp he e hmem
      have hsame : getModel s.entries =
          ((Call.delete id).commits k).foldl Commit.apply (getModel s.entries) := by
        rw [Call.commits]
        split
        · rfl
        · rw [List.foldl_cons, List.foldl_nil, ← getModel_deleted id h.oneEach, hdeleted]
      rw [hbody, List.take_nil]
      have hreload : (reload s).entries = s.entries := h.synced.symm
      refine ⟨⟨rfl, ?_, ?_, ?_⟩, ?_⟩
      · exact hreload ▸ h.oneEach
      · exact hreload ▸ h.placed
      · exact hreload ▸ h.stored
      · show getModel (reload s).entries = _
        rw [hreload]
        exact hsame
  | some e =>
      obtain ⟨hdisk, hdirs⟩ := exec_delete_take h.synced he k
      have hentries : (reload (exec (((Call.delete id).body s).take k) s)).entries =
          if k < 4 then s.entries else deleted id s.entries := hdisk
      have hmem : e ∈ s.entries := List.mem_of_find?_eq_some he
      have hid : e.id = id := by simpa using List.find?_some he
      have hsub : (reload (exec (((Call.delete id).body s).take k) s)).entries ⊆ s.entries := by
        rw [hentries]
        split
        · exact List.Subset.refl _
        · exact fun x hx => List.mem_of_mem_filter hx
      refine ⟨⟨rfl, ?_, fun x hx => h.placed x (hsub hx), fun x hx => ?_⟩, ?_⟩
      · rw [hentries]
        split
        · exact h.oneEach
        · exact oneEach_deleted h.oneEach id
      · show x.artifactDir ∈ (exec (((Call.delete id).body s).take k) s).dirs
        rw [hdirs]
        split
        · exact h.stored x (hsub hx)
        · next hk =>
            rw [hentries, if_neg (by omega)] at hx
            refine Finset.mem_erase.mpr ⟨fun hdir => ?_, h.stored x (List.mem_of_mem_filter hx)⟩
            -- An entry that is left is for another slot, so its directory is another one.
            have hslot := slot_eq_of_artifactDir (h.placed x (List.mem_of_mem_filter hx))
              (h.placed e hmem) hdir
            have hxe := List.inj_on_of_nodup_map h.oneEach (List.mem_of_mem_filter hx) hmem hslot
            exact not_mem_deleted e s.entries (hid.symm ▸ hxe ▸ hx)
      · rw [hentries, Call.commits]
        split
        · rfl
        · rw [List.foldl_cons, List.foldl_nil, ← getModel_deleted id h.oneEach]

/-- A call that is not interrupted leaves memory and disk agreeing. -/
theorem reload_exec_body (h : Synced s) (c : Call) :
    reload (exec (c.body s) s) = exec (c.body s) s := by
  have hsynced : Synced (exec (c.body s) s) := by
    cases c with
    | train rs =>
        rw [Call.body, exec_append, exec_writeArtifacts]
        exact synced_exec_upserts rs h
    | delete id =>
        rw [Call.body]
        split
        · rfl
        · exact h
  cases hs : exec (c.body s) s
  rw [hs] at hsynced
  exact congrArg (Process.mk · _ _ _ _) hsynced.symm

theorem step_spec (h : Consistent root s) {e : Event} (hok : e.Ok root) :
    Consistent root (step s e).1 ∧
      getModel (step s e).1.entries = (step s e).2.foldl Commit.apply (getModel s.entries) := by
  have hcrash : ∀ (c : Call) (k : ℕ), (Event.crash c k).Ok root →
      Consistent root (reload (exec ((c.body s).take k) s)) ∧
        getModel (reload (exec ((c.body s).take k) s)).entries =
          (c.commits k).foldl Commit.apply (getModel s.entries) := by
    intro c k hok
    cases c with
    | train rs =>
        refine ⟨consistent_train h hok k, ?_⟩
        have hentries : (reload (exec (((Call.train rs).body s).take k) s)).entries =
            upsertedAll s.entries (rs.take ((k - rs.length) / 5)) :=
          (exec_train_take rs k h.synced).1
        rw [hentries, getModel_upsertedAll, Call.commits]
    | delete id => exact consistent_delete h id k
  cases e with
  | call c =>
      have hwhole := hcrash c (c.body s).length (by cases c <;> exact hok)
      rw [List.take_length, reload_exec_body h.synced] at hwhole
      exact hwhole
  | sighup =>
      have hsame : reload s = s := by
        cases hs : s
        rw [hs] at h
        exact congrArg (Process.mk · _ _ _ _) h.synced.symm
      show Consistent root (reload s) ∧ getModel (reload s).entries = getModel s.entries
      rw [hsame]
      exact ⟨h, rfl⟩
  | crash c k => exact hcrash c k hok

/-- **In every run in which no signal strikes inside a call, wherever the process dies, the
registry is a map from slots to entries that takes the commits one after another, and every entry
has its artifacts.** -/
theorem registry_run (h : Consistent root s) {es : List Event} (hok : ∀ e ∈ es, e.Ok root) :
    Consistent root (final step s es) ∧
      getModel (final step s es).entries =
        (trace step s es).foldl Commit.apply (getModel s.entries) := by
  induction es generalizing s with
  | nil => exact ⟨h, rfl⟩
  | cons e es ih =>
      obtain ⟨hstep, hmodel⟩ := step_spec h (hok e List.mem_cons_self)
      obtain ⟨hfinal, hrest⟩ := ih hstep fun e' he' => hok e' (List.mem_cons_of_mem e he')
      refine ⟨hfinal, ?_⟩
      rw [final_cons, trace_cons, List.foldl_append, hrest, hmodel]

/-- Two trainings of a slot, of which the second is cut off after its artifacts are written. -/
theorem consistent_two_trainings :
    Consistent "models" (final step ⟨[], .missing, ∅, [], []⟩
        [.call (.train [firstModel]), .crash (.train [secondModel]) 3, .sighup]) ∧
      getModel (final step ⟨[], .missing, ∅, [], []⟩
          [.call (.train [firstModel]), .crash (.train [secondModel]) 3, .sighup]).entries =
        (trace step ⟨[], .missing, ∅, [], []⟩
          [.call (.train [firstModel]), .crash (.train [secondModel]) 3, .sighup]).foldl
            Commit.apply (getModel []) := by
  have hstart : Consistent "models" ⟨[], .missing, ∅, [], []⟩ :=
    ⟨rfl, List.nodup_nil, fun _ h => absurd h List.not_mem_nil,
      fun _ h => absurd h List.not_mem_nil⟩
  have hfirst : Placed "models" firstModel := ⟨by decide, by decide, by decide, by decide⟩
  have hsecond : Placed "models" secondModel := ⟨by decide, by decide, by decide, by decide⟩
  refine registry_run hstart ?_
  simp only [List.forall_mem_cons, Event.Ok]
  exact ⟨⟨hfirst, fun _ h => absurd h List.not_mem_nil⟩,
    ⟨hsecond, fun _ h => absurd h List.not_mem_nil⟩, trivial, fun _ h => absurd h List.not_mem_nil⟩

end Registry
end Ml
end MagnumOpus
