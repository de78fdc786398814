import Mathlib.Data.String.Basic
import MagnumOpus.Lib.EventMachine
import MagnumOpus.Lib.KeyedFiles
import MagnumOpus.Ml.Labels

/-!
# The feature store

The rows of a symbol lie in files, one for each day.  `extract` writes the file of a day anew,
`add_labels_to_parquet` reads a file, sets label columns and writes it back, and `run_clustering`
reads the files of a range of days as one frame, sets the column `cluster` regime by regime, and
splits the frame into files again by the date of each row.

The date is the one that the DuckDB session shows for the time of the row; `dateOf` stands for it.
-/

namespace MagnumOpus
namespace Ml
namespace FeatureStore

open EventMachine KeyedFiles
open KeyedWrites (Map writes)

/-- `REGIMES` of the clustering pipeline. -/
def regimes : List String := ["RANGING", "HIGH_VOL", "THIN_BOOK", "TRENDING_UP", "TRENDING_DOWN"]

/-- What the extractor writes of a row, but for its regime; `rest` holds the columns that no later
step reads by name. -/
structure Source (D : Type*) where
  ts : ℤ
  micropriceMidDelta : Option ℚ
  hurst60 : Option ℚ
  rest : D

/-- A row of a file.  A column that the file does not have is missing in all its rows. -/
structure Stored (D : Type*) extends Source D where
  regime : Option String
  cluster : Option ℤ
  /-- The columns `label_revert_N`. -/
  labels : ℕ → Option Label

/-- `part.parquet`, with the columns whose presence is asked for. -/
structure Part (D : Type*) where
  hasRegime : Bool
  hasCluster : Bool
  rows : List (Stored D)
  regime_none : hasRegime = false → ∀ r ∈ rows, r.regime = none
  cluster_none : hasCluster = false → ∀ r ∈ rows, r.cluster = none

/-- The files of a symbol, by their dates. -/
abbrev Store (D : Type*) := Map String (Part D)

/-- What `_fetch_day` and `_add_rolling_features` give for a day. -/
structure Fetched (D : Type*) where
  hasRegime : Bool
  rows : List (Source D × Option String)

/-- The labels that the scaler, the PCA and HDBSCAN give to the rows of a regime; there are none
where the frame has no feature column. -/
abbrev Fit (D : Type*) := String → List (Source D) → Option (ℕ → ℤ)

inductive Request (D : Type*)
  /-- The days of the range in their order. -/
  | extract (days : List (String × Fetched D))
  | labels (startDate endDate : String) (horizons : List ℕ) (thresholdBps : ℚ)
  | cluster (startDate endDate : String) (minClusterSize : ℕ) (fit : Fit D)

/-- A request; it raises after some of its files, or does not. -/
structure Call (D : Type*) where
  request : Request D
  raises : Option ℕ

structure RegimeStats where
  nSamples : ℕ
  nClusters : ℕ
  noisePct : ℚ
  deriving DecidableEq

inductive Response
  | extracted (daysWritten rowsTotal : ℕ)
  | labelled (filesUpdated : ℕ)
  | noData
  | clustered (stats : List (String × RegimeStats))
  deriving DecidableEq

section model

variable {D : Type*}

/-- What the call writes of the files of its request. -/
def Call.cut {α : Type*} (c : Call D) (ws : List α) : List α :=
  match c.raises with
  | none => ws
  | some n => ws.take n

/-- The columns that the label loop reads. -/
def Source.toRow (s : Source D) : Row := ⟨s.micropriceMidDelta, s.hurst60, none, none, none, none⟩

/-- `start_date <= date_str <= end_date`. -/
def inRange (startDate endDate date : String) : Bool := decide (startDate ≤ date ∧ date ≤ endDate)

/-- The frame of a day as the extractor writes it. -/
def Fetched.part (f : Fetched D) : Part D where
  hasRegime := f.hasRegime
  hasCluster := false
  rows := f.rows.map fun r =>
    { r.1 with
      regime := if f.hasRegime then r.2 else none
      cluster := none
      labels := fun _ => none }
  regime_none h r hr := by
    obtain ⟨r', -, rfl⟩ := List.mem_map.mp hr
    rw [h]
    rfl
  cluster_none _ r hr := by
    obtain ⟨r', -, rfl⟩ := List.mem_map.mp hr
    rfl

/-- `generate_reversion_labels`. -/
def Part.addLabels (p : Part D) (horizons : List ℕ) (thresholdBps : ℚ) : Part D where
  hasRegime := p.hasRegime
  hasCluster := p.hasCluster
  rows := p.rows.mapIdx fun i r =>
    { r with
      labels := fun N =>
        if N ∈ horizons then
          some ((Kind.reversion N thresholdBps).labelAt (p.rows.map fun r => r.toSource.toRow) i)
        else r.labels N }
  regime_none h r hr := by
    obtain ⟨i, hi, rfl⟩ := List.mem_mapIdx.mp hr
    exact p.regime_none h p.rows[i] (List.getElem_mem hi)
  cluster_none h r hr := by
    obtain ⟨i, hi, rfl⟩ := List.mem_mapIdx.mp hr
    exact p.cluster_none h p.rows[i] (List.getElem_mem hi)

/-- `pd.concat`. -/
def concat (ps : List (Part D)) : Part D where
  hasRegime := ps.any (·.hasRegime)
  hasCluster := ps.any (·.hasCluster)
  rows := ps.flatMap (·.rows)
  regime_none h r hr := by
    obtain ⟨p, hp, hr⟩ := List.mem_flatMap.mp hr
    exact p.regime_none (Bool.eq_false_of_not_eq_true (List.any_eq_false.mp h p hp)) r hr
  cluster_none h r hr := by
    obtain ⟨p, hp, hr⟩ := List.mem_flatMap.mp hr
    exact p.cluster_none (Bool.eq_false_of_not_eq_true (List.any_eq_false.mp h p hp)) r hr

/-- The rows with a column `regime` and a column `cluster`. -/
def Part.withDefaults (p : Part D) : List (Stored D) :=
  p.rows.map fun r =>
    { r with
      regime := if p.hasRegime then r.regime else some "RANGING"
      cluster := if p.hasCluster then r.cluster else some (-1) }

/-- The rows of the regime get the labels one after another, from number `k` on. -/
def assign (lab : ℕ → ℤ) (regime : String) : ℕ → List (Stored D) → List (Stored D)
  | _, [] => []
  | k, r :: rows =>
      if r.regime = some regime then
        { r with cluster := some (lab k) } :: assign lab regime (k + 1) rows
      else r :: assign lab regime k rows

def ofRegime (regime : String) (rows : List (Stored D)) : List (Stored D) :=
  rows.filter fun r => r.regime = some regime

/-- What a regime's rows are clustered as, where they are. -/
def fitRegime (fit : Fit D) (minClusterSize : ℕ) (rows : List (Stored D)) (regime : String) :
    Option (ℕ → ℤ) :=
  if (ofRegime regime rows).length < minClusterSize then none
  else fit regime ((ofRegime regime rows).map Stored.toSource)

/-- The body of the loop over the regimes. -/
def clusterRegime (fit : Fit D) (minClusterSize : ℕ) (rows : List (Stored D)) (regime : String) :
    List (Stored D) :=
  match fitRegime fit minClusterSize rows regime with
  | none => rows
  | some lab => assign lab regime 0 rows

def clustered (fit : Fit D) (minClusterSize : ℕ) (rows : List (Stored D)) : List (Stored D) :=
  regimes.foldl (clusterRegime fit minClusterSize) rows

/-- The entry of a regime in the returned statistics. -/
def regimeStats (lab : ℕ → ℤ) (nSamples : ℕ) : RegimeStats where
  nSamples := nSamples
  nClusters := (((List.range nSamples).map lab).toFinset.erase (-1)).card
  noisePct := mkRat (100 * ((List.range nSamples).map lab).count (-1)) nSamples

def clusterStats (fit : Fit D) (minClusterSize : ℕ) (rows : List (Stored D)) :
    List (String × RegimeStats) :=
  regimes.filterMap fun regime =>
    (fitRegime fit minClusterSize rows regime).map fun lab =>
      (regime, regimeStats lab (ofRegime regime rows).length)

/-- A group of the frame as a file. -/
def Part.ofRows (rows : List (Stored D)) : Part D where
  hasRegime := true
  hasCluster := true
  rows := rows
  regime_none h := by cases h
  cluster_none h := by cases h

/-- The files of the range. -/
def partFiles {ν : Type*} (m : Map String ν) (startDate endDate : String) : List (String × ν) :=
  files m (inRange startDate endDate)

/-- The frame that the clustering reads. -/
def readFrame (m : Store D) (startDate endDate : String) : List (Stored D) :=
  (concat ((partFiles m startDate endDate).map Prod.snd)).withDefaults

variable (dateOf : ℤ → String)

/-- `ts_date` of the rows, in order, where the file exists. -/
def dates (m : Store D) (rows : List (Stored D)) : List String :=
  (rows.map fun r => dateOf r.ts).toFinset.sort.filter fun d => (m.lookup d).isSome

/-- The files of the groups. -/
def partitions (m : Store D) (rows : List (Stored D)) : List (String × Option (Part D)) :=
  (dates dateOf m rows).map fun d => (d, some (.ofRows (rowsOf (fun r => dateOf r.ts) d rows)))

/-- The files that a request writes, in their order. -/
def Request.written (m : Store D) : Request D → List (String × Option (Part D))
  | extract days =>
      (days.filter fun day => !day.2.rows.isEmpty).map fun day => (day.1, some day.2.part)
  | labels startDate endDate horizons thresholdBps =>
      (partFiles m startDate endDate).map fun f => (f.1, some (f.2.addLabels horizons thresholdBps))
  | cluster startDate endDate minClusterSize fit =>
      partitions dateOf m (clustered fit minClusterSize (readFrame m startDate endDate))

def Request.response (m : Store D) : Request D → Response
  | extract days =>
      .extracted (days.filter fun day => !day.2.rows.isEmpty).length
        (days.map fun day => day.2.rows.length).sum
  | labels startDate endDate _ _ => .labelled (partFiles m startDate endDate).length
  | cluster startDate endDate minClusterSize fit =>
      if (partFiles m startDate endDate).isEmpty then .noData
      else .clustered (clusterStats fit minClusterSize (readFrame m startDate endDate))

/-- A call that raises has written a part of its files, and returns nothing. -/
def step : Step (Store D) (Call D) Response := fun m c =>
  (writes m (c.cut (c.request.written dateOf m)),
    if c.raises.isNone then [c.request.response m] else [])

end model

/-! ### What the files are for -/

/-- The rows of the last extraction of a day, and the label runs since: the threshold of the last
one for each horizon. -/
structure Extraction (D : Type*) where
  sources : List (Source D)
  thresholds : ℕ → Option ℚ

section spec

variable {D : Type*}

/-- The column `label_revert_N`. -/
def Extraction.targets (e : Extraction D) (N : ℕ) : List (Option Label) :=
  match e.thresholds N with
  | none => e.sources.map fun _ => none
  | some thresholdBps =>
      ((Kind.reversion N thresholdBps).labels (e.sources.map Source.toRow)).map some

def Extraction.addLabels (e : Extraction D) (horizons : List ℕ) (thresholdBps : ℚ) :
    Extraction D :=
  { e with thresholds := fun N => if N ∈ horizons then some thresholdBps else e.thresholds N }

/-- What a request is for: an extraction replaces a day, a label run adds to the days of its range,
and a clustering leaves the days alone. -/
def Request.intended (m : Map String (Extraction D)) :
    Request D → List (String × Option (Extraction D))
  | extract days =>
      (days.filter fun day => !day.2.rows.isEmpty).map fun day =>
        (day.1, some ⟨day.2.rows.map Prod.fst, fun _ => none⟩)
  | labels startDate endDate horizons thresholdBps =>
      (partFiles m startDate endDate).map fun f => (f.1, some (f.2.addLabels horizons thresholdBps))
  | cluster _ _ _ _ => []

def intend : Step (Map String (Extraction D)) (Call D) Response := fun m c =>
  (writes m (c.cut (c.request.intended m)), [])

/-- The part of a row that the clustering leaves alone. -/
def Stored.core (r : Stored D) : Source D × (ℕ → Option Label) := (r.toSource, r.labels)

/-- The file holds the rows of the extraction, in their order, with their labels. -/
structure Part.Shows (p : Part D) (e : Extraction D) : Prop where
  sources : p.rows.map Stored.toSource = e.sources
  labels : ∀ N, p.rows.map (fun r => r.labels N) = e.targets N

theorem Part.Shows.of_core {p p' : Part D} {e : Extraction D} (h : p.Shows e)
    (hcore : p'.rows.map Stored.core = p.rows.map Stored.core) : p'.Shows e where
  sources := by
    have hsources := congrArg (List.map Prod.fst) hcore
    rw [List.map_map, List.map_map] at hsources
    exact hsources.trans h.sources
  labels N := by
    have hlabels := congrArg (List.map fun c => c.2 N) hcore
    rw [List.map_map, List.map_map] at hlabels
    exact hlabels.trans (h.labels N)

theorem shows_fetched (f : Fetched D) :
    f.part.Shows ⟨f.rows.map Prod.fst, fun _ => none⟩ where
  sources := by
    unfold Fetched.part
    rw [List.map_map]
    rfl
  labels N := by
    unfold Fetched.part Extraction.targets
    rw [List.map_map, List.map_map]
    rfl

theorem labels_addLabels (p : Part D) (horizons : List ℕ) (thresholdBps : ℚ) (N i : ℕ) :
    ((p.addLabels horizons thresholdBps).rows.map fun r => r.labels N)[i]? =
      p.rows[i]?.map fun r =>
        if N ∈ horizons then
          some ((Kind.reversion N thresholdBps).labelAt (p.rows.map fun r => r.toSource.toRow) i)
        else r.labels N := by
  simp only [Part.addLabels, List.getElem?_map, List.getElem?_mapIdx, Option.map_map]
  rfl

theorem shows_addLabels {p : Part D} {e : Extraction D} (h : p.Shows e) (horizons : List ℕ)
    (thresholdBps : ℚ) :
    (p.addLabels horizons thresholdBps).Shows (e.addLabels horizons thresholdBps) where
  sources := by
    refine Eq.trans (List.ext_getElem? fun i => ?_) h.sources
    simp only [Part.addLabels, List.getElem?_map, List.getElem?_mapIdx, Option.map_map]
    rfl
  labels N := by
    have hrows : (p.rows.map fun r => r.toSource.toRow) = e.sources.map Source.toRow := by
      rw [← h.sources, List.map_map]
      rfl
    by_cases hN : N ∈ horizons
    · have htargets : (e.addLabels horizons thresholdBps).targets N =
          ((Kind.reversion N thresholdBps).labels (e.sources.map Source.toRow)).map some := by
        simp only [Extraction.targets, Extraction.addLabels, if_pos hN]
      refine List.ext_getElem? fun i => ?_
      rw [htargets, ← hrows, labels_addLabels, List.getElem?_map]
      simp only [if_pos hN]
      rcases lt_or_ge i p.rows.length with hi | hi
      · rw [Kind.labels_getElem? _ (by rwa [List.length_map]), List.getElem?_eq_getElem hi]
        rfl
      · rw [List.getElem?_eq_none hi, List.getElem?_eq_none (by simpa using hi)]
        rfl
    · have htargets : (e.addLabels horizons thresholdBps).targets N = e.targets N := by
        simp only [Extraction.targets, Extraction.addLabels, if_neg hN]
      refine List.ext_getElem? fun i => ?_
      rw [htargets, ← h.labels N, labels_addLabels, List.getElem?_map]
      simp only [if_neg hN]

/-! ### The clustering -/

theorem core_assign (lab : ℕ → ℤ) (regime : String) : ∀ (rows : List (Stored D)) (k : ℕ),
    (assign lab regime k rows).map Stored.core = rows.map Stored.core
  | [], _ => rfl
  | r :: rows, k => by
      unfold assign
      split
      · rw [List.map_cons, core_assign lab regime rows (k + 1)]
        rfl
      · rw [List.map_cons, core_assign lab regime rows k, List.map_cons]

theorem core_clusterRegime (fit : Fit D) (minClusterSize : ℕ) (rows : List (Stored D))
    (regime : String) :
    (clusterRegime fit minClusterSize rows regime).map Stored.core = rows.map Stored.core := by
  unfold clusterRegime
  split
  · rfl
  · exact core_assign _ _ rows 0

theorem core_clustered (fit : Fit D) (minClusterSize : ℕ) (rows : List (Stored D)) :
    (clustered fit minClusterSize rows).map Stored.core = rows.map Stored.core := by
  unfold clustered
  generalize regimes = rs
  induction rs generalizing rows with
  | nil => rfl
  | cons regime rs ih =>
      rw [List.foldl_cons, ih, core_clusterRegime]

theorem core_withDefaults (p : Part D) :
    p.withDefaults.map Stored.core = p.rows.map Stored.core := by
  unfold Part.withDefaults
  rw [List.map_map]
  rfl

/-- The files of the range, with the cores of their rows. -/
def coreFiles (m : Store D) (startDate endDate : String) :
    List (String × List (Source D × (ℕ → Option Label))) :=
  (partFiles m startDate endDate).map fun f => (f.1, f.2.rows.map Stored.core)

theorem core_readFrame (m : Store D) (startDate endDate : String) :
    (readFrame m startDate endDate).map Stored.core =
      (coreFiles m startDate endDate).flatMap Prod.snd := by
  unfold readFrame coreFiles concat
  rw [core_withDefaults]
  dsimp only
  rw [List.map_flatMap, List.flatMap_map, List.flatMap_map]

theorem nodup_coreFiles (m : Store D) (startDate endDate : String) :
    ((coreFiles m startDate endDate).map Prod.fst).Nodup := by
  unfold coreFiles
  rw [List.map_map]
  exact nodup_files m (inRange startDate endDate)

variable {dateOf : ℤ → String} {m : Store D} {m' : Map String (Extraction D)}

theorem mem_dates {rows : List (Stored D)} {d : String} :
    d ∈ dates dateOf m rows ↔ (∃ r ∈ rows, dateOf r.ts = d) ∧ (m.lookup d).isSome = true := by
  unfold dates
  rw [List.mem_filter, Finset.mem_sort, List.mem_toFinset, List.mem_map]

theorem core_rowsOf (fit : Fit D) (minClusterSize : ℕ) (startDate endDate d : String) :
    (rowsOf (fun r => dateOf r.ts) d
        (clustered fit minClusterSize (readFrame m startDate endDate))).map Stored.core =
      rowsOf (fun c => dateOf c.1.ts) d ((coreFiles m startDate endDate).flatMap Prod.snd) := by
  rw [← core_readFrame, ← core_clustered fit minClusterSize (readFrame m startDate endDate),
    rowsOf_map]
  rfl

/-- Every row lies in the file of its date. -/
def Dated (dateOf : ℤ → String) (m : Store D) : Prop :=
  ∀ d p, m.lookup d = some p → ∀ r ∈ p.rows, dateOf r.ts = d

theorem mem_coreFiles {startDate endDate d : String}
    {cores : List (Source D × (ℕ → Option Label))} :
    (d, cores) ∈ coreFiles m startDate endDate ↔
      ∃ p, (d, p) ∈ partFiles m startDate endDate ∧ cores = p.rows.map Stored.core := by
  unfold coreFiles
  rw [List.mem_map]
  constructor
  · rintro ⟨f, hf, heq⟩
    cases heq
    exact ⟨f.2, hf, rfl⟩
  · rintro ⟨p, hp, rfl⟩
    exact ⟨(d, p), hp, rfl⟩

/-- A group of a frame that was read from dated files is the file of its date. -/
theorem core_group (hdated : Dated dateOf m) {fit : Fit D} {minClusterSize : ℕ}
    {startDate endDate d : String}
    (hd : d ∈ dates dateOf m (clustered fit minClusterSize (readFrame m startDate endDate))) :
    ∃ p, m.lookup d = some p ∧
      (rowsOf (fun r => dateOf r.ts) d
        (clustered fit minClusterSize (readFrame m startDate endDate))).map Stored.core =
        p.rows.map Stored.core := by
  have hfile {d' : String} {cores : List (Source D × (ℕ → Option Label))}
      (hf : (d', cores) ∈ coreFiles m startDate endDate) : ∀ c ∈ cores, dateOf c.1.ts = d' := by
    obtain ⟨p, hp, rfl⟩ := mem_coreFiles.mp hf
    intro c hc
    obtain ⟨r, hr, rfl⟩ := List.mem_map.mp hc
    exact hdated d' p (mem_files.mp hp).1 r hr
  -- the row that gives the group its date comes from the file of this date
  obtain ⟨⟨r, hr, rfl⟩, -⟩ := mem_dates.mp hd
  have hcore := List.mem_map_of_mem (f := Stored.core) hr
  rw [core_clustered, core_readFrame, List.mem_flatMap] at hcore
  obtain ⟨⟨d', cores⟩, hf, hmem⟩ := hcore
  obtain rfl : dateOf r.ts = d' := hfile hf r.core hmem
  obtain ⟨p, hp, rfl⟩ := mem_coreFiles.mp hf
  refine ⟨p, (mem_files.mp hp).1, ?_⟩
  rw [core_rowsOf, rowsOf_flatMap_iff _ (nodup_coreFiles m startDate endDate) hf]
  exact ⟨hfile hf, fun f hf' hne c hc => fun heq => hne ((hfile hf' c hc).symm.trans heq)⟩

/-! ### Runs -/

/-- The days of the extraction are those of the session: a row is fetched for the day it shows. -/
def Request.Dated (dateOf : ℤ → String) : Request D → Prop
  | extract days => ∀ day ∈ days, ∀ r ∈ day.2.rows, dateOf r.1.ts = day.1
  | _ => True

instance decidableDated (dateOf : ℤ → String) : (r : Request D) → Decidable (r.Dated dateOf)
  | .extract days =>
      inferInstanceAs (Decidable (∀ day ∈ days, ∀ r ∈ day.2.rows, dateOf r.1.ts = day.1))
  | .labels _ _ _ _ => isTrue trivial
  | .cluster _ _ _ _ => isTrue trivial

/-- Every extraction is that of its day. -/
def DatedSources (dateOf : ℤ → String) (m' : Map String (Extraction D)) : Prop :=
  ∀ d e, m'.lookup d = some e → ∀ s ∈ e.sources, dateOf s.ts = d

theorem dated_of_shows (h : Related Part.Shows m m') (hdated : DatedSources dateOf m') :
    Dated dateOf m := by
  intro d p hp r hr
  have hd := h d
  rw [hp] at hd
  generalize he : m'.lookup d = e at hd
  cases hd with
  | some hshows =>
      exact hdated d _ he r.toSource (hshows.sources ▸ List.mem_map_of_mem hr)

theorem forall₂_extract (days : List (String × Fetched D)) :
    List.Forall₂ (fun w w' => w.1 = w'.1 ∧ Option.Rel Part.Shows w.2 w'.2)
      (Request.written dateOf m (.extract days)) (Request.intended m' (.extract days)) := by
  unfold Request.written Request.intended
  dsimp only
  generalize (days.filter fun day => !day.2.rows.isEmpty) = ds
  induction ds with
  | nil => exact .nil
  | cons day ds ih => exact .cons ⟨rfl, .some (shows_fetched day.2)⟩ ih

theorem forall₂_labels (h : Related Part.Shows m m') (startDate endDate : String)
    (horizons : List ℕ) (thresholdBps : ℚ) :
    List.Forall₂ (fun w w' => w.1 = w'.1 ∧ Option.Rel Part.Shows w.2 w'.2)
      (Request.written dateOf m (.labels startDate endDate horizons thresholdBps))
      (Request.intended m' (.labels startDate endDate horizons thresholdBps)) := by
  have hfiles := h.files (inRange startDate endDate)
  unfold Request.written Request.intended partFiles
  dsimp only
  generalize files m (inRange startDate endDate) = fs at hfiles
  generalize files m' (inRange startDate endDate) = fs' at hfiles
  induction hfiles with
  | nil => exact .nil
  | cons hf _ ih =>
      exact .cons ⟨hf.1, .some (shows_addLabels hf.2 horizons thresholdBps)⟩ ih

/-- Writing the groups of the clustered frame back changes no core. -/
theorem related_cluster (h : Related Part.Shows m m') (hdated : DatedSources dateOf m')
    (startDate endDate : String) (minClusterSize : ℕ) (fit : Fit D) {ds : List String}
    (hds : ∀ d ∈ ds, d ∈ dates dateOf m
      (clustered fit minClusterSize (readFrame m startDate endDate))) :
    Related Part.Shows
      (writes m (ds.map fun d => (d, some (.ofRows (rowsOf (fun r => dateOf r.ts) d
        (clustered fit minClusterSize (readFrame m startDate endDate)))))))
      m' := by
  intro d
  rw [lookup_writes_map]
  split
  · next hd =>
      obtain ⟨p, hp, hcore⟩ := core_group (dated_of_shows h hdated) (hds d hd)
      have hrel := h d
      rw [hp] at hrel
      generalize m'.lookup d = e at hrel
      cases hrel with
      | some hshows => exact .some (hshows.of_core hcore)
  · exact h d

theorem datedSources_writes {ws : List (String × Option (Extraction D))}
    (hws : ∀ w ∈ ws, ∀ e, w.2 = some e → ∀ s ∈ e.sources, dateOf s.ts = w.1)
    (hdated : DatedSources dateOf m') : DatedSources dateOf (writes m' ws) := by
  induction ws generalizing m' with
  | nil => exact hdated
  | cons w ws ih =>
      rw [KeyedWrites.writes_cons]
      refine ih (fun w' hw' => hws w' (List.mem_cons_of_mem w hw')) fun d e he => ?_
      by_cases hd : d = w.1
      · subst hd
        rw [KeyedWrites.lookup_write_same] at he
        exact hws w List.mem_cons_self e he
      · rw [KeyedWrites.lookup_write_ne m' w.2 hd] at he
        exact hdated d e he

theorem datedSources_intended (hdated : DatedSources dateOf m') {req : Request D}
    (hreq : req.Dated dateOf) :
    ∀ w ∈ req.intended m', ∀ e, w.2 = some e → ∀ s ∈ e.sources, dateOf s.ts = w.1 := by
  cases req with
  | extract days =>
      intro w hw e he s hs
      obtain ⟨day, hday, rfl⟩ := List.mem_map.mp hw
      obtain rfl := Option.some.inj he
      obtain ⟨r, hr, rfl⟩ := List.mem_map.mp hs
      exact hreq day (List.mem_of_mem_filter hday) r hr
  | labels startDate endDate horizons thresholdBps =>
      intro w hw e he s hs
      obtain ⟨f, hf, rfl⟩ := List.mem_map.mp hw
      obtain rfl := Option.some.inj he
      exact hdated f.1 f.2 (mem_files.mp hf).1 s hs
  | cluster startDate endDate minClusterSize fit =>
      exact fun w hw => absurd hw List.not_mem_nil

theorem mem_of_mem_cut {α : Type*} {c : Call D} {ws : List α} {w : α} (h : w ∈ c.cut ws) :
    w ∈ ws := by
  unfold Call.cut at h
  split at h
  · exact h
  · exact List.mem_of_mem_take h

theorem cut_map {α β : Type*} (c : Call D) (f : α → β) (ws : List α) :
    c.cut (ws.map f) = (c.cut ws).map f := by
  unfold Call.cut
  split
  · rfl
  · exact List.map_take.symm

theorem forall₂_cut {α β : Type*} {R : α → β → Prop} (c : Call D) {ws : List α} {ws' : List β}
    (h : List.Forall₂ R ws ws') : List.Forall₂ R (c.cut ws) (c.cut ws') := by
  unfold Call.cut
  split
  · exact h
  · exact List.forall₂_take _ h

theorem step_related (h : Related Part.Shows m m') (hdated : DatedSources dateOf m') (c : Call D)
    (hc : c.request.Dated dateOf) :
    Related Part.Shows (step dateOf m c).1 (intend m' c).1 ∧
      DatedSources dateOf (intend m' c).1 := by
  refine ⟨?_, datedSources_writes (fun w hw => datedSources_intended hdated hc w
    (mem_of_mem_cut hw)) hdated⟩
  obtain ⟨request, raises⟩ := c
  cases request with
  | extract days => exact rel_writes h (forall₂_cut _ (forall₂_extract days))
  | labels startDate endDate horizons thresholdBps =>
      exact rel_writes h (forall₂_cut _ (forall₂_labels h startDate endDate horizons thresholdBps))
  | cluster startDate endDate minClusterSize fit =>
      have hnone : Call.cut ⟨.cluster startDate endDate minClusterSize fit, raises⟩
          (Request.intended m' (.cluster startDate endDate minClusterSize fit)) = [] :=
        List.eq_nil_iff_forall_not_mem.mpr fun w hw => absurd (mem_of_mem_cut hw) List.not_mem_nil
      unfold step intend Request.written partitions
      dsimp only
      rw [hnone, cut_map]
      exact related_cluster h hdated startDate endDate minClusterSize fit
        fun d hd => mem_of_mem_cut hd

theorem related_final (calls : List (Call D)) (hdates : ∀ c ∈ calls, c.request.Dated dateOf) :
    Related Part.Shows (final (step dateOf) (∅ : Store D) calls)
        (final intend (∅ : Map String (Extraction D)) calls) ∧
      DatedSources dateOf (final intend (∅ : Map String (Extraction D)) calls) := by
  refine final_rel (R := fun m m' => Related Part.Shows m m' ∧ DatedSources dateOf m')
    (fun _ _ c h hc => step_related h.1 h.2 c hc) calls ⟨fun d => ?_, fun d e he => ?_⟩ hdates
  · rw [Finmap.lookup_empty, Finmap.lookup_empty]
    exact .none
  · rw [Finmap.lookup_empty] at he
    cases he

/-- **Runs of the feature store**: where a row shows the date it was fetched for, every file holds
the rows of the last extraction of its day, in their order, with the labels of the last run for each
horizon since; no clustering loses, moves or changes them, also when it stops between two files. -/
theorem store_shows (calls : List (Call D)) (hdates : ∀ c ∈ calls, c.request.Dated dateOf) :
    Related Part.Shows (final (step dateOf) (∅ : Store D) calls)
      (final intend (∅ : Map String (Extraction D)) calls) :=
  (related_final calls hdates).1

theorem dated_final (calls : List (Call D)) (hdates : ∀ c ∈ calls, c.request.Dated dateOf) :
    Dated dateOf (final (step dateOf) (∅ : Store D) calls) :=
  dated_of_shows (related_final calls hdates).1 (related_final calls hdates).2

end spec

/-- The dates of the first two days. -/
def utcDate (ts : ℤ) : String := if ts < 86400 then "1970-01-01" else "1970-01-02"

/-- Two days are extracted, labelled and clustered, and the first one is extracted again. -/
def twoDays : List (Call Unit) :=
  [⟨.extract
      [("1970-01-01", ⟨true, [(⟨0, some 2, some 0, ()⟩, some "RANGING"),
        (⟨86399, some 4, some 0, ()⟩, some "RANGING")]⟩),
       ("1970-01-02", ⟨true, [(⟨86400, some 1, none, ()⟩, some "HIGH_VOL")]⟩)], none⟩,
   ⟨.labels "1970-01-01" "1970-01-31" [1] 1, none⟩,
   ⟨.cluster "1970-01-01" "1970-01-31" 2 fun _ _ => some fun k => k, some 1⟩,
   ⟨.extract [("1970-01-01", ⟨false, [(⟨0, some 3, some 0, ()⟩, none)]⟩)], none⟩]

theorem dated_twoDays : ∀ c ∈ twoDays, c.request.Dated utcDate := by decide

theorem twoDays_show :
    Related Part.Shows (final (step utcDate) (∅ : Store Unit) twoDays)
      (final intend (∅ : Map String (Extraction Unit)) twoDays) :=
  store_shows twoDays dated_twoDays

end FeatureStore
end Ml
end MagnumOpus
