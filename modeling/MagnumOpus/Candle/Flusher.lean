import Mathlib.Algebra.Order.Group.Int
import Mathlib.Data.Int.Order.Basic
import Mathlib.Order.MinMax
import MagnumOpus.Lib.EventMachine

/-! # The daily archive

`flusher.go`: every day the rows of the day before are written to an archive, and a start of the
service first catches up on the days that were missed.

* **Progress.** Two things say how far the archive has come: a success row in the manifest for each
  archived day, and one date in Redis, which every successful flush moves to its own day.  A
  catch-up takes the days after that date, or after the latest day in the manifest when there is no
  date, and skips those in the manifest.
* **Events.** Days pass, rows arrive, the date may be lost, the service starts at any time and goes
  through its catch-up one day at a time, and a day may be flushed by hand.  Every flush says how
  the calls that it makes end.
* **Holes.** `staysComplete_iff`: exactly which steps leave no day with rows behind the date. -/

namespace MagnumOpus.Candle

open EventMachine

/-- How the calls of one flush end. -/
structure FlushCalls where
  query : Bool := true
  parquet : Bool := true
  upload : Bool := true
  /-- An error of this call is logged and nothing else, as is one of the next. -/
  manifest : Bool := true
  setDate : Bool := true
deriving DecidableEq

/-- How the reads at a start end. -/
structure ReadCalls where
  getDate : Bool := true
  manifest : Bool := true
deriving DecidableEq

/-- The flusher and what it reads and writes; days are numbered. -/
structure Flusher where
  today : ℤ
  /-- The days that have rows. -/
  rows : List ℤ := []
  /-- The date in Redis. -/
  lastFlushDate : Option ℤ := none
  /-- The days with a success row in the manifest. -/
  manifest : List ℤ := []
  /-- What a running catch-up still has to go through. -/
  todo : List ℤ := []
  /-- The day of the first successful flush. -/
  first : Option ℤ := none
deriving DecidableEq

inductive FlushEvent where
  | midnight
  | arrive (day : ℤ)
  | loseDate
  | start (reads : ReadCalls)
  /-- The next day of the catch-up; `check` says how the look into the manifest ends. -/
  | catchup (check : Bool) (calls : FlushCalls)
  | daily (calls : FlushCalls)
  | override (day : ℤ) (calls : FlushCalls)
deriving DecidableEq

/-- The days after `last` and before `today`, in order. -/
def flushDateRange (last today : ℤ) : List ℤ :=
  (List.range (today - (last + 1)).toNat).map fun n : ℕ => last + 1 + (n : ℤ)

theorem mem_flushDateRange {last today d : ℤ} :
    d ∈ flushDateRange last today ↔ last < d ∧ d < today := by
  simp only [flushDateRange, List.mem_map, List.mem_range]
  constructor
  · rintro ⟨n, hn, rfl⟩
    omega
  · rintro ⟨hlast, htoday⟩
    exact ⟨(d - (last + 1)).toNat, by omega, by omega⟩

namespace Flusher

/-- The date, or the latest day in the manifest; what cannot be read counts as absent, but a
manifest that cannot be read ends the catch-up. -/
def readLastFlushDate (s : Flusher) (reads : ReadCalls) : Option ℤ :=
  if reads.getDate = true ∧ s.lastFlushDate.isSome then s.lastFlushDate
  else if reads.manifest then s.manifest.max?
  else none

/-- The days that a catch-up goes through. -/
def missing (s : Flusher) (reads : ReadCalls) : List ℤ :=
  match s.readLastFlushDate reads with
  | some last => flushDateRange last s.today
  | none => []

/-- Archives one day; shows the day when it has been uploaded. -/
def flushDate (s : Flusher) (d : ℤ) (calls : FlushCalls) : Flusher × List ℤ :=
  if calls.query = false ∨ d ∉ s.rows ∨ calls.parquet = false ∨ calls.upload = false then (s, [])
  else
    ({ s with
       manifest := if calls.manifest then d :: s.manifest else s.manifest
       lastFlushDate := if calls.setDate then some d else s.lastFlushDate
       first := s.first.or (some d) }, [d])

/-- One day of a catch-up. -/
def catchupDate (s : Flusher) (d : ℤ) (check : Bool) (calls : FlushCalls) : Flusher × List ℤ :=
  if check = true ∧ d ∈ s.manifest then (s, []) else s.flushDate d calls

def step : Step Flusher FlushEvent ℤ := fun s e =>
  match e with
  | .midnight => ({ s with today := s.today + 1 }, [])
  | .arrive d => ({ s with rows := d :: s.rows }, [])
  | .loseDate => ({ s with lastFlushDate := none }, [])
  | .start reads => ({ s with todo := s.missing reads }, [])
  | .catchup check calls =>
      match s.todo with
      | [] => (s, [])
      | d :: rest => ({ s with todo := rest } : Flusher).catchupDate d check calls
  -- The loop flushes yesterday, once the catch-up is done.
  | .daily calls => if s.todo = [] then s.flushDate (s.today - 1) calls else (s, [])
  | .override d calls => s.flushDate d calls

def new (today : ℤ) : Flusher where
  today := today

/-! ### Completeness -/

/-- The days that the next catch-up attempts, when it can read how far the archive has come. -/
def nextCatchup (s : Flusher) : List ℤ := (s.missing {}).filter (· ∉ s.manifest)

/-- The day comes after the first successful one and has rows. -/
def Needed (s : Flusher) (d : ℤ) : Prop := (∃ f, s.first = some f ∧ f < d) ∧ d ∈ s.rows

/-- Every needed day that has ended is archived or will be attempted. -/
def Complete (s : Flusher) : Prop :=
  ∀ d, s.Needed d → d < s.today → d ∈ s.manifest ∨ d ∈ s.nextCatchup

/-- So it is, and so it is after any number of nights. -/
def StaysComplete (s : Flusher) : Prop :=
  ∀ n, (final step s (List.replicate n .midnight)).Complete

/-- Every needed day before `d` is archived. -/
def ArchivedBefore (s : Flusher) (d : ℤ) : Prop := ∀ x, s.Needed x → x < d → x ∈ s.manifest

/-- How far the archive has come, as the next catch-up reads it. -/
def lastDate (s : Flusher) : Option ℤ := s.lastFlushDate.or s.manifest.max?

/-- The day comes after the date that the next catch-up starts from. -/
def AfterDate (s : Flusher) (d : ℤ) : Prop := ∃ l, s.lastDate = some l ∧ l < d

/-- A flush of `d` that uploads the day leaves no needed day behind the date.  When the date moves,
the day has its row in the manifest and the needed days before it are archived; the latter as well
when the manifest stands in for a date that is absent.  When nothing is recorded at all, it is not
the first success, or no later day has rows. -/
def SafeSuccess (s : Flusher) (d : ℤ) (calls : FlushCalls) : Prop :=
  if calls.setDate then
    (calls.manifest = true ∨ d ∈ s.manifest ∨ ∀ f, s.first = some f → d ≤ f) ∧ s.ArchivedBefore d
  else if calls.manifest then s.lastFlushDate = none → s.ArchivedBefore d
  else s.first = none → ∀ x ∈ s.rows, x ≤ d

def SafeFlush (s : Flusher) (d : ℤ) (calls : FlushCalls) : Prop :=
  calls.query = true → d ∈ s.rows → calls.parquet = true → calls.upload = true →
    s.SafeSuccess d calls

/-- The step leaves no needed day behind the date. -/
def Safe (s : Flusher) : FlushEvent → Prop
  | .midnight => True
  -- Rows come for days after the date, or not for the first time.
  | .arrive d => d ∈ s.manifest ∨ (∀ f, s.first = some f → d ≤ f) ∨ s.AfterDate d
  -- The manifest that stands in for the date is not ahead of an unarchived day.
  | .loseDate => ∀ x, s.Needed x → x ∈ s.manifest ∨ ∃ l, s.manifest.max? = some l ∧ l < x
  | .start _ => True
  | .catchup check calls => ∀ d ∈ s.todo.head?, ¬ (check = true ∧ d ∈ s.manifest) →
      s.SafeFlush d calls
  | .daily calls => s.todo = [] → s.SafeFlush (s.today - 1) calls
  | .override d calls => s.SafeFlush d calls

/-! ### What completeness depends on -/

variable {s : Flusher} {d x : ℤ}

/-- No needed day is behind the date, ended or not. -/
def NoHole (s : Flusher) : Prop := ∀ d, s.Needed d → d ∈ s.manifest ∨ s.AfterDate d

/-- Nothing is recorded before the first success. -/
def Founded (s : Flusher) : Prop := s.first = none → s.lastFlushDate = none ∧ s.manifest = []

theorem max?_lt_iff {days : List ℤ} :
    (∃ l, days.max? = some l ∧ l < x) ↔ days ≠ [] ∧ ∀ y ∈ days, y < x := by
  constructor
  · rintro ⟨l, hl, hlt⟩
    obtain ⟨hmem, hle⟩ := List.max?_eq_some_iff.mp hl
    exact ⟨List.ne_nil_of_mem hmem, fun y hy => lt_of_le_of_lt (hle y hy) hlt⟩
  · rintro ⟨hne, hlt⟩
    obtain ⟨l, hl⟩ := Option.isSome_iff_exists.mp (List.isSome_max?_of_ne_nil hne)
    exact ⟨l, hl, hlt l (List.max?_mem hl)⟩

/-- A start that reads everything goes by `lastDate`. -/
theorem readLastFlushDate_ok (s : Flusher) : s.readLastFlushDate {} = s.lastDate := by
  unfold readLastFlushDate lastDate
  cases s.lastFlushDate with
  | none => rfl
  | some l => rfl

theorem mem_nextCatchup :
    d ∈ s.nextCatchup ↔ s.AfterDate d ∧ d < s.today ∧ d ∉ s.manifest := by
  unfold nextCatchup missing AfterDate
  rw [readLastFlushDate_ok]
  cases hlast : s.lastDate with
  | none => simp
  | some l => simp [mem_flushDateRange, and_assoc]

theorem final_nights (s : Flusher) (n : ℕ) :
    final step s (List.replicate n .midnight) = { s with today := s.today + n } := by
  induction n generalizing s with
  | zero => simp
  | succ n ih =>
      rw [List.replicate_succ, final_cons, ih]
      simp only [step, Flusher.mk.injEq, and_true]
      push_cast
      omega

/-- Every day has ended after enough nights. -/
theorem staysComplete_iff_noHole (s : Flusher) : s.StaysComplete ↔ s.NoHole := by
  unfold StaysComplete
  simp only [final_nights]
  constructor
  · intro h d hneeded
    have hended : d < s.today + ((d - s.today + 1).toNat : ℤ) := by omega
    rcases h (d - s.today + 1).toNat d hneeded hended with harchived | hattempted
    · exact .inl harchived
    · exact .inr (mem_nextCatchup.mp hattempted).1
  · intro h n d hneeded hended
    by_cases harchived : d ∈ s.manifest
    · exact .inl harchived
    · exact .inr (mem_nextCatchup.mpr ⟨(h d hneeded).resolve_left harchived, hended, harchived⟩)

/-! ### One flush -/

theorem needed_iff_of_first {f : ℤ} (hfirst : s.first = some f) :
    s.Needed x ↔ f < x ∧ x ∈ s.rows := by
  simp [Needed, hfirst]

theorem archivedBefore_of_no_first (hf : s.first = none) (d : ℤ) : s.ArchivedBefore d := by
  rintro x ⟨⟨f, hsome, -⟩, -⟩ -
  rw [hf] at hsome
  cases hsome

/-- A flush after the first success changes nothing about which days are needed. -/
theorem needed_congr_of_first {s' : Flusher} {f : ℤ} (hf : s.first = some f)
    (hfirst : s'.first = s.first.or (some d)) (hrows : s'.rows = s.rows) :
    s'.Needed x ↔ s.Needed x := by
  rw [hf, Option.some_or] at hfirst
  rw [needed_iff_of_first hfirst, needed_iff_of_first hf, hrows]

/-- What a successful flush leaves behind when it moves the date. -/
theorem noHole_setDate_iff {s' : Flusher} {archived : Bool} (hdate : s'.lastFlushDate = some d)
    (hmanifest : s'.manifest = if archived then d :: s.manifest else s.manifest)
    (hfirst : s'.first = s.first.or (some d)) (hrows : s'.rows = s.rows) (hd : d ∈ s.rows) :
    s'.NoHole ↔ (archived = true ∨ d ∈ s.manifest ∨ ∀ f, s.first = some f → d ≤ f) ∧
      s.ArchivedBefore d := by
  have hafter : ∀ x, s'.AfterDate x ↔ d < x := by
    intro x
    simp [AfterDate, lastDate, hdate]
  have hsub : ∀ x ∈ s.manifest, x ∈ s'.manifest := by
    intro x hx
    rw [hmanifest]
    split
    · exact List.mem_cons_of_mem _ hx
    · exact hx
  cases hf : s.first with
  | none =>
      -- The first success: only later days are needed.
      rw [hf] at hfirst
      have hnofirst : ∀ f, (none : Option ℤ) = some f → d ≤ f :=
        fun f h => absurd h.symm (Option.some_ne_none f)
      refine iff_of_true (fun x hx => ?_) ⟨.inr (.inr hnofirst), archivedBefore_of_no_first hf d⟩
      rw [needed_iff_of_first hfirst] at hx
      exact .inr ((hafter x).mpr hx.1)
  | some f =>
      have hneeded : ∀ x, s'.Needed x ↔ s.Needed x :=
        fun _ => needed_congr_of_first hf hfirst hrows
      constructor
      · intro h
        constructor
        · by_contra hnot
          simp only [not_or, Option.some.injEq, forall_eq', not_le] at hnot
          obtain ⟨hunarchived, hnew, hlater⟩ := hnot
          have hd' := h d ((hneeded d).mpr ((needed_iff_of_first hf).mpr ⟨hlater, hd⟩))
          rw [hmanifest, if_neg hunarchived, hafter] at hd'
          exact hd'.elim hnew (lt_irrefl d)
        · intro x hx hlt
          rcases h x ((hneeded x).mpr hx) with hmem | hgt
          · rw [hmanifest] at hmem
            split at hmem
            · exact (List.mem_cons.mp hmem).resolve_left hlt.ne
            · exact hmem
          · exact absurd ((hafter x).mp hgt) (not_lt.mpr hlt.le)
      · rintro ⟨hday, hbefore⟩ x hx
        rw [hneeded] at hx
        rcases lt_trichotomy x d with hlt | rfl | hgt
        · exact .inl (hsub x (hbefore x hx hlt))
        · rcases hday with harchived | hmem | hle
          · rw [hmanifest, if_pos harchived]
            exact .inl List.mem_cons_self
          · exact .inl (hsub x hmem)
          · exact absurd (hle f rfl) (not_le.mpr ((needed_iff_of_first hf).mp hx).1)
        · exact .inr ((hafter x).mpr hgt)

/-- What the first success leaves behind when it does not. -/
theorem noHole_firstDay_iff {s' : Flusher} {archived : Bool} (hf : s.first = none)
    (hfound : s.Founded) (hdate : s'.lastFlushDate = s.lastFlushDate)
    (hmanifest : s'.manifest = if archived then d :: s.manifest else s.manifest)
    (hfirst : s'.first = s.first.or (some d)) (hrows : s'.rows = s.rows) :
    s'.NoHole ↔ archived = true ∨ ∀ x ∈ s.rows, x ≤ d := by
  obtain ⟨hnone, hempty⟩ := hfound hf
  rw [hf] at hfirst
  rw [hempty] at hmanifest
  cases archived with
  | true =>
      -- The manifest stands in for the date, and starts with this day.
      refine iff_of_true (fun x hx => .inr ?_) (.inl rfl)
      rw [needed_iff_of_first hfirst] at hx
      refine ⟨d, ?_, hx.1⟩
      rw [lastDate, hdate, hnone, hmanifest]
      rfl
  | false =>
      have hafter : ∀ x, ¬ s'.AfterDate x := by
        rintro x ⟨l, hl, -⟩
        rw [lastDate, hdate, hnone, hmanifest] at hl
        cases hl
      rw [if_neg Bool.false_ne_true] at hmanifest
      rw [or_iff_right Bool.false_ne_true]
      constructor
      · intro h x hx
        by_contra hgt
        rcases h x ((needed_iff_of_first hfirst).mpr ⟨not_le.mp hgt, hrows ▸ hx⟩) with hm | ha
        · rw [hmanifest] at hm
          exact List.not_mem_nil hm
        · exact hafter x ha
      · intro h x hx
        rw [needed_iff_of_first hfirst, hrows] at hx
        exact absurd (h x hx.2) (not_le.mpr hx.1)

/-- What a later one leaves behind when the manifest stands in for the date. -/
theorem noHole_standIn_iff {s' : Flusher} {f : ℤ} (hno : s.NoHole) (hf : s.first = some f)
    (hnone : s.lastFlushDate = none) (hdate : s'.lastFlushDate = none)
    (hmanifest : s'.manifest = d :: s.manifest) (hfirst : s'.first = s.first.or (some d))
    (hrows : s'.rows = s.rows) : s'.NoHole ↔ s.ArchivedBefore d := by
  have hneeded : ∀ x, s'.Needed x ↔ s.Needed x :=
    fun _ => needed_congr_of_first hf hfirst hrows
  have hafter : ∀ x, s'.AfterDate x ↔ d < x ∧ ∀ y ∈ s.manifest, y < x := by
    intro x
    rw [AfterDate, lastDate, hdate, hmanifest, Option.none_or, max?_lt_iff]
    simp
  constructor
  · intro h x hx hlt
    rcases h x ((hneeded x).mpr hx) with hm | ha
    · rw [hmanifest] at hm
      exact (List.mem_cons.mp hm).resolve_left hlt.ne
    · exact absurd ((hafter x).mp ha).1 (not_lt.mpr hlt.le)
  · intro hbefore x hx
    rw [hneeded] at hx
    rw [hmanifest, hafter, List.mem_cons]
    rcases lt_trichotomy x d with hlt | heq | hgt
    · exact .inl (.inr (hbefore x hx hlt))
    · exact .inl (.inl heq)
    · refine (hno x hx).imp .inr fun ha => ⟨hgt, ?_⟩
      rw [AfterDate, lastDate, hnone, Option.none_or, max?_lt_iff] at ha
      exact ha.2

/-- What a successful flush leaves behind when it does not move the date. -/
theorem noHole_keepDate_iff {s' : Flusher} {archived : Bool} (hno : s.NoHole) (hfound : s.Founded)
    (hdate : s'.lastFlushDate = s.lastFlushDate)
    (hmanifest : s'.manifest = if archived then d :: s.manifest else s.manifest)
    (hfirst : s'.first = s.first.or (some d)) (hrows : s'.rows = s.rows) :
    s'.NoHole ↔ if archived then s.lastFlushDate = none → s.ArchivedBefore d
      else s.first = none → ∀ x ∈ s.rows, x ≤ d := by
  cases hf : s.first with
  | none =>
      rw [noHole_firstDay_iff hf hfound hdate hmanifest hfirst hrows]
      cases archived with
      | true => exact iff_of_true (.inl rfl) fun _ => archivedBefore_of_no_first hf d
      | false =>
          rw [or_iff_right Bool.false_ne_true, if_neg Bool.false_ne_true]
          exact ⟨fun h _ => h, fun h => h rfl⟩
  | some f =>
      have hneeded : ∀ x, s'.Needed x ↔ s.Needed x :=
        fun _ => needed_congr_of_first hf hfirst hrows
      cases archived with
      | false =>
          refine iff_of_true (fun x hx => ?_) fun h => absurd h (Option.some_ne_none f)
          rw [hneeded] at hx
          rw [AfterDate, lastDate, hdate, hmanifest]
          exact hno x hx
      | true =>
          rw [if_pos rfl] at hmanifest ⊢
          cases hold : s.lastFlushDate with
          | some l =>
              refine iff_of_true (fun x hx => ?_) fun h => absurd h (Option.some_ne_none l)
              rw [hneeded] at hx
              rcases hno x hx with hm | ⟨l', hl', hlt⟩
              · rw [hmanifest]
                exact .inl (List.mem_cons_of_mem _ hm)
              · refine .inr ⟨l', ?_, hlt⟩
                rw [lastDate, hold, Option.some_or] at hl'
                rw [lastDate, hdate, hold, Option.some_or]
                exact hl'
          | none =>
              rw [noHole_standIn_iff hno hf hold (hdate.trans hold) hmanifest hfirst hrows]
              exact ⟨fun h _ => h, fun h => h rfl⟩

theorem noHole_flushDate_iff (hno : s.NoHole) (hfound : s.Founded) (d : ℤ) (calls : FlushCalls) :
    (s.flushDate d calls).1.NoHole ↔ s.SafeFlush d calls := by
  unfold flushDate SafeFlush
  split
  next hfails =>
    refine iff_of_true hno fun hquery hrows hparquet hupload => ?_
    simp [hquery, hrows, hparquet, hupload] at hfails
  next hgoes =>
    simp only [not_or, Bool.not_eq_false, not_not] at hgoes
    obtain ⟨hquery, hrows, hparquet, hupload⟩ := hgoes
    simp only [hquery, hrows, hparquet, hupload, forall_const, SafeSuccess]
    cases hset : calls.setDate with
    | true => exact noHole_setDate_iff rfl rfl rfl rfl hrows
    | false => exact noHole_keepDate_iff hno hfound rfl rfl rfl rfl

theorem founded_flushDate (hfound : s.Founded) (d : ℤ) (calls : FlushCalls) :
    (s.flushDate d calls).1.Founded := by
  unfold flushDate
  split
  · exact hfound
  · intro hnone
    cases hf : s.first <;> simp [hf] at hnone

theorem noHole_congr {s' : Flusher} (hrows : s'.rows = s.rows)
    (hdate : s'.lastFlushDate = s.lastFlushDate) (hmanifest : s'.manifest = s.manifest)
    (hfirst : s'.first = s.first) : s'.NoHole ↔ s.NoHole := by
  simp only [NoHole, Needed, AfterDate, lastDate, hrows, hdate, hmanifest, hfirst]

/-! ### Runs -/

theorem noHole_step_iff (hno : s.NoHole) (hfound : s.Founded) (e : FlushEvent) :
    (step s e).1.NoHole ↔ s.Safe e := by
  cases e with
  | midnight => exact iff_of_true ((noHole_congr rfl rfl rfl rfl).mpr hno) trivial
  | start reads => exact iff_of_true ((noHole_congr rfl rfl rfl rfl).mpr hno) trivial
  | override d calls => exact noHole_flushDate_iff hno hfound d calls
  | daily calls =>
      simp only [step, Safe]
      split
      next htodo =>
        rw [noHole_flushDate_iff hno hfound]
        exact ⟨fun h _ => h, fun h => h htodo⟩
      next htodo => exact iff_of_true hno fun h => absurd h htodo
  | catchup check calls =>
      simp only [step, Safe]
      cases htodo : s.todo with
      | nil =>
          refine iff_of_true hno fun d hd => ?_
          cases hd
      | cons d rest =>
          have hno' : NoHole { s with todo := rest } := (noHole_congr rfl rfl rfl rfl).mpr hno
          simp only [List.head?_cons, Option.mem_def, Option.some.injEq, forall_eq', catchupDate]
          split
          next hskip => exact iff_of_true hno' fun h => absurd hskip h
          next hflush =>
            rw [noHole_flushDate_iff hno' hfound]
            exact ⟨fun h _ => h, fun h => h hflush⟩
  | loseDate =>
      simp only [step, Safe, NoHole]
      rfl
  | arrive d =>
      simp only [step, Safe]
      constructor
      · intro h
        by_contra hnot
        simp only [not_or, not_forall, not_le] at hnot
        obtain ⟨hunarchived, ⟨f, hf, hlt⟩, hbehind⟩ := hnot
        rcases h d ⟨⟨f, hf, hlt⟩, List.mem_cons_self⟩ with harchived | hafter
        · exact hunarchived harchived
        · exact hbehind hafter
      · rintro h x ⟨⟨f, hf, hlt⟩, hx⟩
        rcases List.mem_cons.mp hx with rfl | hold
        · rcases h with harchived | hle | hafter
          · exact .inl harchived
          · exact absurd (hle f hf) (not_le.mpr hlt)
          · exact .inr hafter
        · exact hno x ⟨⟨f, hf, hlt⟩, hold⟩

theorem founded_step (hfound : s.Founded) (e : FlushEvent) : (step s e).1.Founded := by
  cases e with
  | midnight => exact hfound
  | start reads => exact hfound
  | arrive d => exact hfound
  | loseDate => exact fun h => ⟨rfl, (hfound h).2⟩
  | override d calls => exact founded_flushDate hfound d calls
  | daily calls =>
      simp only [step]
      split
      · exact founded_flushDate hfound _ calls
      · exact hfound
  | catchup check calls =>
      simp only [step]
      cases s.todo with
      | nil => exact hfound
      | cons d rest =>
          simp only [catchupDate]
          split
          · exact hfound
          · have hfound' : Founded { s with todo := rest } := hfound
            exact founded_flushDate hfound' d calls

/-- **The catch-up stays complete after every step of a run exactly when every step is safe.** -/
theorem staysComplete_iff (today : ℤ) (es : List FlushEvent) :
    Along step (fun s e => (step s e).1.StaysComplete) (new today) es ↔
      Along step Safe (new today) es := by
  refine along_iff_along (I := fun s => s.NoHole ∧ s.Founded) (fun s e hs => ?_) es ⟨?_, ?_⟩
  · have hiff := noHole_step_iff hs.1 hs.2 e
    rw [staysComplete_iff_noHole]
    exact ⟨hiff, fun hsafe => ⟨hiff.mpr hsafe, founded_step hs.2 e⟩⟩
  · rintro d ⟨⟨f, hf, -⟩, -⟩
    cases hf
  · exact fun _ => ⟨rfl, rfl⟩

/-- Day 1 is archived, the upload of day 2 fails, and day 3 is archived. -/
def dayBetween : List FlushEvent :=
  [.start {}, .arrive 1, .midnight, .arrive 2, .daily {}, .midnight, .arrive 3,
   .daily { upload := false }, .midnight, .daily {}]

/-- Day 2 is neither archived nor attempted again. -/
theorem day_between_is_skipped : ¬ (final step (new 1) dayBetween).Complete := by
  intro h
  have hneeded : (final step (new 1) dayBetween).Needed 2 := ⟨⟨1, rfl, by decide⟩, by decide⟩
  rcases h 2 hneeded (by decide) with harchived | hattempted
  · exact absurd harchived (by decide)
  · exact absurd hattempted (by decide)

end Flusher

end MagnumOpus.Candle
