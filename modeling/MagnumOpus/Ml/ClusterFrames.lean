import MagnumOpus.Ml.FeatureStore

/-!
# What a clustering does to the feature store

`run_clustering` reads the files of a range as one frame and splits the clustered frame by the dates
of its rows.  A file keeps its rows exactly when no row of the range is dated otherwise than the
file it lies in, as far as this file goes (`keeps_rows_iff`).  Where all rows are dated as they
lie, the frame that is read next is the one that was written: the rows of a regime that has enough
of them got their labels in order, and all others kept theirs (`readFrame_cluster`).
-/

namespace MagnumOpus
namespace Ml
namespace FeatureStore

open EventMachine KeyedFiles
open KeyedWrites (Map writes)

variable {D : Type*} {dateOf : ℤ → String} {m : Store D} {startDate endDate : String}

/-- The store after a clustering that does not raise. -/
def afterCluster (dateOf : ℤ → String) (m : Store D) (startDate endDate : String)
    (minClusterSize : ℕ) (fit : Fit D) : Store D :=
  (step dateOf m ⟨.cluster startDate endDate minClusterSize fit, none⟩).1

theorem lookup_afterCluster (dateOf : ℤ → String) (m : Store D) (startDate endDate : String)
    (minClusterSize : ℕ) (fit : Fit D) (d : String) :
    (afterCluster dateOf m startDate endDate minClusterSize fit).lookup d =
      if d ∈ dates dateOf m (clustered fit minClusterSize (readFrame m startDate endDate)) then
        some (.ofRows (rowsOf (fun r => dateOf r.ts) d
          (clustered fit minClusterSize (readFrame m startDate endDate))))
      else m.lookup d :=
  lookup_writes_map _ _ m

/-! ### Rows that are lost -/

theorem mem_dates_of_own {d : String} {p : Part D} (hp : (d, p) ∈ partFiles m startDate endDate)
    (hown : ∃ r ∈ p.rows, dateOf r.ts = d) (minClusterSize : ℕ) (fit : Fit D) :
    d ∈ dates dateOf m (clustered fit minClusterSize (readFrame m startDate endDate)) := by
  obtain ⟨r, hr, hd⟩ := hown
  have hcore : r.core ∈
      (clustered fit minClusterSize (readFrame m startDate endDate)).map Stored.core := by
    rw [core_clustered, core_readFrame, List.mem_flatMap]
    exact ⟨_, mem_coreFiles.mpr ⟨p, hp, rfl⟩, List.mem_map_of_mem hr⟩
  obtain ⟨r', hr', heq⟩ := List.mem_map.mp hcore
  have hts : r'.ts = r.ts := congrArg (fun c : Source D × (ℕ → Option Label) => c.1.ts) heq
  refine mem_dates.mpr ⟨⟨r', hr', by rw [hts]; exact hd⟩, ?_⟩
  rw [(mem_files.mp hp).1]
  rfl

theorem forall_core_iff {P : String → Prop} {p : Part D} :
    (∀ c ∈ p.rows.map Stored.core, P (dateOf c.1.ts)) ↔ ∀ r ∈ p.rows, P (dateOf r.ts) :=
  List.forall_mem_map

theorem forall_coreFiles_iff {P : String → List (Source D × (ℕ → Option Label)) → Prop} :
    (∀ f ∈ coreFiles m startDate endDate, P f.1 f.2) ↔
      ∀ f ∈ partFiles m startDate endDate, P f.1 (f.2.rows.map Stored.core) :=
  List.forall_mem_map

/-- **Lost rows**: a file of the range that has a row of its date keeps its rows exactly when all of
them are of its date, and no row of another file of the range is. -/
theorem keeps_rows_iff {d : String} {p : Part D} (hp : (d, p) ∈ partFiles m startDate endDate)
    (hown : ∃ r ∈ p.rows, dateOf r.ts = d) (minClusterSize : ℕ) (fit : Fit D) :
    (∃ p', (afterCluster dateOf m startDate endDate minClusterSize fit).lookup d = some p' ∧
        p'.rows.map Stored.core = p.rows.map Stored.core) ↔
      (∀ r ∈ p.rows, dateOf r.ts = d) ∧
        ∀ f ∈ partFiles m startDate endDate, f.1 ≠ d → ∀ r ∈ f.2.rows, dateOf r.ts ≠ d := by
  rw [lookup_afterCluster, if_pos (mem_dates_of_own hp hown minClusterSize fit)]
  have hsplit := rowsOf_flatMap_iff (fun c => dateOf c.1.ts)
    (nodup_coreFiles m startDate endDate) (mem_coreFiles.mpr ⟨p, hp, rfl⟩)
  rw [forall_core_iff (P := fun d' => d' = d),
    forall_coreFiles_iff (P := fun d' cores => d' ≠ d → ∀ c ∈ cores, dateOf c.1.ts ≠ d)] at hsplit
  simp only [forall_core_iff (P := fun d' => d' ≠ d)] at hsplit
  rw [← hsplit, ← core_rowsOf fit minClusterSize]
  constructor
  · rintro ⟨p', hp', hcore⟩
    obtain rfl := Option.some.inj hp'
    exact hcore
  · exact fun hcore => ⟨_, rfl, hcore⟩

/-- Two rows that a session an hour ahead of UTC shows on two days. -/
def lateDay : Part Unit :=
  .ofRows [⟨⟨0, none, none, ()⟩, none, none, fun _ => none⟩,
    ⟨⟨86399, none, none, ()⟩, none, none, fun _ => none⟩]

theorem lateDay_loses_row :
    ¬ ∃ p', (afterCluster (fun ts => utcDate (ts + 3600))
          (writes (∅ : Store Unit) [("1970-01-01", some lateDay)])
          "1970-01-01" "1970-01-31" 50 fun _ _ => none).lookup "1970-01-01" = some p' ∧
        p'.rows.map Stored.core = lateDay.rows.map Stored.core := by
  have hp : ("1970-01-01", lateDay) ∈
      partFiles (writes (∅ : Store Unit) [("1970-01-01", some lateDay)])
        "1970-01-01" "1970-01-31" :=
    mem_files.mpr ⟨KeyedWrites.lookup_write_same ∅ "1970-01-01" (some lateDay), by decide⟩
  have hshift : ∃ r ∈ lateDay.rows, utcDate (r.ts + 3600) = "1970-01-01" :=
    ⟨_, List.mem_cons_self, by decide⟩
  have hiff := @keeps_rows_iff Unit (fun ts => utcDate (ts + 3600)) _ _ _ _ _ hp hshift 50
    fun _ _ => none
  exact fun hkeeps => absurd (hiff.mp hkeeps).1 (by decide)

/-! ### The loop over the regimes -/

/-- The cluster of row `i` after the loop over `rs`. -/
def clusterOf (fit : Fit D) (minClusterSize : ℕ) (rows : List (Stored D)) (rs : List String) (i : ℕ)
    (r : Stored D) : Option ℤ :=
  match r.regime with
  | none => r.cluster
  | some regime =>
      if regime ∈ rs then
        match fitRegime fit minClusterSize rows regime with
        | none => r.cluster
        | some lab => some (lab (ofRegime regime (rows.take i)).length)
      else r.cluster

theorem assign_getElem? (lab : ℕ → ℤ) (regime : String) : ∀ (rows : List (Stored D)) (k i : ℕ),
    (assign lab regime k rows)[i]? = rows[i]?.map fun r =>
      if r.regime = some regime then
        { r with cluster := some (lab (k + (ofRegime regime (rows.take i)).length)) }
      else r
  | [], _, _ => rfl
  | r :: rows, k, 0 => by
      unfold assign
      split
      · next hr => simp [hr, ofRegime]
      · next hr => simp [hr]
  | r :: rows, k, i + 1 => by
      unfold assign
      split
      · next hr =>
          rw [List.getElem?_cons_succ, List.getElem?_cons_succ, assign_getElem? lab regime rows]
          have hcount : (ofRegime regime ((r :: rows).take (i + 1))).length =
              (ofRegime regime (rows.take i)).length + 1 := by
            simp [ofRegime, hr]
          rw [hcount, Nat.add_assoc, Nat.add_comm 1]
      · next hr =>
          rw [List.getElem?_cons_succ, List.getElem?_cons_succ, assign_getElem? lab regime rows]
          have hcount : (ofRegime regime ((r :: rows).take (i + 1))).length =
              (ofRegime regime (rows.take i)).length := by
            simp [ofRegime, hr]
          rw [hcount]

/-- What the clustering reads of a row. -/
def Stored.read (r : Stored D) : Source D × Option String := (r.toSource, r.regime)

theorem read_assign (lab : ℕ → ℤ) (regime : String) : ∀ (rows : List (Stored D)) (k : ℕ),
    (assign lab regime k rows).map Stored.read = rows.map Stored.read
  | [], _ => rfl
  | r :: rows, k => by
      unfold assign
      split
      · rw [List.map_cons, read_assign lab regime rows (k + 1)]
        rfl
      · rw [List.map_cons, read_assign lab regime rows k, List.map_cons]

theorem read_clusterRegime (fit : Fit D) (minClusterSize : ℕ) (rows : List (Stored D))
    (regime : String) :
    (clusterRegime fit minClusterSize rows regime).map Stored.read = rows.map Stored.read := by
  unfold clusterRegime
  split
  · rfl
  · exact read_assign _ _ rows 0

theorem ofRegime_read (regime : String) (rows : List (Stored D)) :
    (ofRegime regime rows).map Stored.toSource =
      ((rows.map Stored.read).filter fun c => c.2 = some regime).map Prod.fst := by
  rw [List.filter_map, List.map_map]
  rfl

theorem length_ofRegime_congr {rows rows' : List (Stored D)}
    (h : rows'.map Stored.read = rows.map Stored.read) (regime : String) (i : ℕ) :
    (ofRegime regime (rows'.take i)).length = (ofRegime regime (rows.take i)).length := by
  rw [← List.length_map (f := Stored.toSource), ofRegime_read, List.map_take, h, ← List.map_take,
    ← ofRegime_read, List.length_map]

theorem fitRegime_congr {rows rows' : List (Stored D)}
    (h : rows'.map Stored.read = rows.map Stored.read) (fit : Fit D) (minClusterSize : ℕ)
    (regime : String) :
    fitRegime fit minClusterSize rows' regime = fitRegime fit minClusterSize rows regime := by
  have hsources : (ofRegime regime rows').map Stored.toSource =
      (ofRegime regime rows).map Stored.toSource := by
    rw [ofRegime_read, ofRegime_read, h]
  have hlength := congrArg List.length hsources
  rw [List.length_map, List.length_map] at hlength
  unfold fitRegime
  rw [hsources, hlength]

theorem clusterOf_of_notMem {fit : Fit D} {minClusterSize : ℕ} {rows : List (Stored D)}
    {rs : List String} {i : ℕ} {r : Stored D} (h : ∀ regime, r.regime = some regime → regime ∉ rs) :
    clusterOf fit minClusterSize rows rs i r = r.cluster := by
  unfold clusterOf
  split
  · rfl
  · next regime hr => exact if_neg (h regime hr)

theorem clusterOf_of_mem {fit : Fit D} {minClusterSize : ℕ} {rows : List (Stored D)}
    {rs : List String} {i : ℕ} {r : Stored D} {regime : String} (hr : r.regime = some regime)
    (h : regime ∈ rs) :
    clusterOf fit minClusterSize rows rs i r =
      match fitRegime fit minClusterSize rows regime with
      | none => r.cluster
      | some lab => some (lab (ofRegime regime (rows.take i)).length) := by
  unfold clusterOf
  rw [hr]
  exact if_pos h

theorem clusterRegime_getElem? (fit : Fit D) (minClusterSize : ℕ) (rows : List (Stored D))
    (regime : String) (i : ℕ) :
    (clusterRegime fit minClusterSize rows regime)[i]? = rows[i]?.map fun r =>
      { r with cluster := clusterOf fit minClusterSize rows [regime] i r } := by
  have hother {r : Stored D} (hr : r.regime ≠ some regime) :
      clusterOf fit minClusterSize rows [regime] i r = r.cluster :=
    clusterOf_of_notMem fun regime' hr' hmem => hr (List.mem_singleton.mp hmem ▸ hr')
  unfold clusterRegime
  cases hfit : fitRegime fit minClusterSize rows regime with
  | none =>
      have hsame (r : Stored D) : clusterOf fit minClusterSize rows [regime] i r = r.cluster := by
        by_cases hr : r.regime = some regime
        · rw [clusterOf_of_mem hr List.mem_cons_self, hfit]
        · exact hother hr
      simp only [hsame, Option.map_id']
  | some lab =>
      refine (assign_getElem? lab regime rows 0 i).trans (Option.map_congr fun r _ => ?_)
      by_cases hr : r.regime = some regime
      · rw [if_pos hr, clusterOf_of_mem hr List.mem_cons_self, hfit, Nat.zero_add]
      · rw [if_neg hr, hother hr]

theorem clusterOf_cons (fit : Fit D) (minClusterSize : ℕ) (rows : List (Stored D))
    {regime : String} {rs : List String} (hregime : regime ∉ rs) (i : ℕ) (r : Stored D) :
    clusterOf fit minClusterSize (clusterRegime fit minClusterSize rows regime) rs i
        { r with cluster := clusterOf fit minClusterSize rows [regime] i r } =
      clusterOf fit minClusterSize rows (regime :: rs) i r := by
  have hread := read_clusterRegime fit minClusterSize rows regime
  by_cases hr : r.regime = some regime
  · refine (clusterOf_of_notMem fun regime' hr' hmem => ?_).trans
      ((clusterOf_of_mem hr List.mem_cons_self).trans
        (clusterOf_of_mem hr List.mem_cons_self).symm)
    exact hregime (Option.some.inj (hr.symm.trans hr') ▸ hmem)
  · have hfirst : clusterOf fit minClusterSize rows [regime] i r = r.cluster :=
      clusterOf_of_notMem fun regime' hr' hmem => hr (List.mem_singleton.mp hmem ▸ hr')
    rw [hfirst]
    by_cases hmem : ∃ regime' ∈ rs, r.regime = some regime'
    · obtain ⟨regime', hmem, hr'⟩ := hmem
      refine (clusterOf_of_mem hr' hmem).trans ?_
      rw [clusterOf_of_mem hr' (List.mem_cons_of_mem regime hmem), fitRegime_congr hread,
        length_ofRegime_congr hread]
    · refine (clusterOf_of_notMem fun regime' hr' hmem' => hmem ⟨regime', hmem', hr'⟩).trans
        (clusterOf_of_notMem fun regime' hr' hmem' => ?_).symm
      rcases List.mem_cons.mp hmem' with rfl | hmem'
      · exact hr hr'
      · exact hmem ⟨regime', hmem', hr'⟩

/-- The loop sets the cluster of every row once at most. -/
theorem foldl_clusterRegime_getElem? (fit : Fit D) (minClusterSize : ℕ) :
    ∀ (rs : List String) (rows : List (Stored D)) (i : ℕ), rs.Nodup →
      (rs.foldl (clusterRegime fit minClusterSize) rows)[i]? = rows[i]?.map fun r =>
        { r with cluster := clusterOf fit minClusterSize rows rs i r }
  | [], rows, i, _ => by
      have hnone (r : Stored D) : clusterOf fit minClusterSize rows [] i r = r.cluster :=
        clusterOf_of_notMem fun _ _ => List.not_mem_nil
      simp only [hnone, List.foldl_nil, Option.map_id']
  | regime :: rs, rows, i, hrs => by
      obtain ⟨hregime, hrs⟩ := List.nodup_cons.mp hrs
      rw [List.foldl_cons, foldl_clusterRegime_getElem? fit minClusterSize rs _ i hrs,
        clusterRegime_getElem?, Option.map_map]
      refine Option.map_congr fun r _ => ?_
      exact congrArg (fun c => { r with cluster := c })
        (clusterOf_cons fit minClusterSize rows hregime i r)

theorem clustered_eq (fit : Fit D) (minClusterSize : ℕ) (rows : List (Stored D)) :
    clustered fit minClusterSize rows = rows.mapIdx fun i r =>
      { r with cluster := clusterOf fit minClusterSize rows regimes i r } :=
  List.ext_getElem? fun i => by
    rw [List.getElem?_mapIdx]
    exact foldl_clusterRegime_getElem? fit minClusterSize regimes rows i (by decide)

/-! ### Reading the frame again -/

theorem keys_afterCluster (minClusterSize : ℕ) (fit : Fit D) :
    (afterCluster dateOf m startDate endDate minClusterSize fit).keys = m.keys := by
  ext d
  rw [Finmap.mem_keys, Finmap.mem_keys, ← Finmap.lookup_isSome, ← Finmap.lookup_isSome,
    lookup_afterCluster]
  split
  · next hd => exact iff_of_true rfl (mem_dates.mp hd).2
  · exact Iff.rfl

/-- The dates of the range. -/
def rangeDates (m : Store D) (startDate endDate : String) : List String :=
  (partFiles m startDate endDate).map Prod.fst

theorem rows_concat (m : Store D) (startDate endDate : String) :
    (concat ((partFiles m startDate endDate).map Prod.snd)).rows =
      (rangeDates m startDate endDate).flatMap fun d => (m.lookup d).elim [] Part.rows := by
  unfold concat rangeDates partFiles
  dsimp only
  rw [List.flatMap_map, map_fst_files]
  exact flatMap_files m (inRange startDate endDate) Part.rows

theorem mem_partFiles_of_mem_rangeDates {d : String} (hd : d ∈ rangeDates m startDate endDate) :
    ∃ p, (d, p) ∈ partFiles m startDate endDate := by
  obtain ⟨f, hf, rfl⟩ := List.mem_map.mp hd
  exact ⟨f.2, hf⟩

theorem map_dateOf_clustered (hdated : Dated dateOf m) (fit : Fit D) (minClusterSize : ℕ) :
    (clustered fit minClusterSize (readFrame m startDate endDate)).map (fun r => dateOf r.ts) =
      (rangeDates m startDate endDate).flatMap fun d =>
        List.replicate ((m.lookup d).elim [] Part.rows).length d := by
  have hcore := congrArg (List.map fun c : Source D × (ℕ → Option Label) => dateOf c.1.ts)
    ((core_clustered fit minClusterSize (readFrame m startDate endDate)).trans
      (core_withDefaults _))
  rw [List.map_map, List.map_map, rows_concat, List.map_flatMap] at hcore
  refine hcore.trans (List.flatMap_congr fun d _ => ?_)
  refine List.eq_replicate_iff.mpr ⟨List.length_map _, fun d' hd' => ?_⟩
  obtain ⟨r, hr, rfl⟩ := List.mem_map.mp hd'
  cases hp : m.lookup d with
  | none => exact absurd (hp ▸ hr) List.not_mem_nil
  | some p => exact hdated d p hp r (by rw [hp] at hr; exact hr)

/-- What a file of the range holds after the clustering. -/
theorem rows_afterCluster (hdated : Dated dateOf m) (minClusterSize : ℕ) (fit : Fit D) {d : String}
    (hd : d ∈ rangeDates m startDate endDate) :
    ((afterCluster dateOf m startDate endDate minClusterSize fit).lookup d).elim [] Part.rows =
      rowsOf (fun r => dateOf r.ts) d
        (clustered fit minClusterSize (readFrame m startDate endDate)) := by
  rw [lookup_afterCluster]
  split
  · rfl
  · next hnone =>
      obtain ⟨p, hp⟩ := mem_partFiles_of_mem_rangeDates hd
      have hlookup := (mem_files.mp hp).1
      have hempty : p.rows = [] := List.eq_nil_iff_forall_not_mem.mpr fun r hr =>
        hnone (mem_dates_of_own hp ⟨r, hr, hdated d p hlookup r hr⟩ minClusterSize fit)
      rw [hlookup]
      refine hempty.trans (rowsOf_eq_nil_iff.mpr fun r hr heq => hnone ?_).symm
      exact mem_dates.mpr ⟨⟨r, hr, heq⟩, by rw [hlookup]; rfl⟩

theorem rows_concat_afterCluster (hdated : Dated dateOf m) (minClusterSize : ℕ) (fit : Fit D) :
    (concat ((partFiles (afterCluster dateOf m startDate endDate minClusterSize fit)
        startDate endDate).map Prod.snd)).rows =
      clustered fit minClusterSize (readFrame m startDate endDate) := by
  have hdates : rangeDates (afterCluster dateOf m startDate endDate minClusterSize fit)
      startDate endDate = rangeDates m startDate endDate := by
    unfold rangeDates partFiles
    rw [map_fst_files, map_fst_files, keys_afterCluster]
  rw [rows_concat, hdates,
    List.flatMap_congr fun d hd => rows_afterCluster hdated minClusterSize fit hd]
  exact flatMap_rowsOf (nodup_files m (inRange startDate endDate))
    (map_dateOf_clustered hdated fit minClusterSize)

theorem withDefaults_eq_rows {p : Part D} (hregime : p.hasRegime = true)
    (hcluster : p.hasCluster = true) : p.withDefaults = p.rows := by
  unfold Part.withDefaults
  simp only [hregime, hcluster, if_true]
  exact List.map_id' p.rows

theorem exists_written (hdated : Dated dateOf m) {minClusterSize : ℕ} {fit : Fit D} {r : Stored D}
    (hr : r ∈ clustered fit minClusterSize (readFrame m startDate endDate)) :
    ∃ rows, Part.ofRows rows ∈
      (partFiles (afterCluster dateOf m startDate endDate minClusterSize fit)
        startDate endDate).map Prod.snd := by
  have hdate := List.mem_map_of_mem (f := fun r => dateOf r.ts) hr
  rw [map_dateOf_clustered hdated, List.mem_flatMap] at hdate
  obtain ⟨d, hd, hmem⟩ := hdate
  obtain ⟨p, hp⟩ := mem_partFiles_of_mem_rangeDates hd
  obtain ⟨hlookup, hrange⟩ := mem_files.mp hp
  have hdates : d ∈ dates dateOf m
      (clustered fit minClusterSize (readFrame m startDate endDate)) :=
    mem_dates.mpr ⟨⟨r, hr, List.eq_of_mem_replicate hmem⟩, by rw [hlookup]; rfl⟩
  have hafter := lookup_afterCluster dateOf m startDate endDate minClusterSize fit d
  rw [if_pos hdates] at hafter
  exact ⟨_, List.mem_map_of_mem (f := Prod.snd) (mem_files.mpr ⟨hafter, hrange⟩)⟩

/-- The clustering of dated files does not write out of its range. -/
theorem lookup_afterCluster_of_not_inRange (hdated : Dated dateOf m) (minClusterSize : ℕ)
    (fit : Fit D) {d : String} (hd : inRange startDate endDate d = false) :
    (afterCluster dateOf m startDate endDate minClusterSize fit).lookup d = m.lookup d := by
  rw [lookup_afterCluster, if_neg]
  intro hdates
  obtain ⟨⟨r, hr, rfl⟩, -⟩ := mem_dates.mp hdates
  have hdate := List.mem_map_of_mem (f := fun r => dateOf r.ts) hr
  rw [map_dateOf_clustered hdated, List.mem_flatMap] at hdate
  obtain ⟨d', hd', hmem⟩ := hdate
  obtain ⟨p, hp⟩ := mem_partFiles_of_mem_rangeDates hd'
  rw [List.eq_of_mem_replicate hmem, (mem_files.mp hp).2] at hd
  cases hd

/-- **Clustered frames**: where every row is dated as it lies, the frame that is read after a
clustering is the one before it, with a label for the rows of the regimes that were clustered, in
their order, and with the old label for every other row.  No other file changes. -/
theorem readFrame_cluster (hdated : Dated dateOf m) (minClusterSize : ℕ) (fit : Fit D) :
    (readFrame (afterCluster dateOf m startDate endDate minClusterSize fit) startDate endDate =
      (readFrame m startDate endDate).mapIdx fun i r =>
        { r with
          cluster :=
            clusterOf fit minClusterSize (readFrame m startDate endDate) regimes i r }) ∧
      ∀ d, inRange startDate endDate d = false →
        (afterCluster dateOf m startDate endDate minClusterSize fit).lookup d = m.lookup d := by
  refine ⟨?_, fun d hd => lookup_afterCluster_of_not_inRange hdated minClusterSize fit hd⟩
  have hrows : (concat ((partFiles (afterCluster dateOf m startDate endDate minClusterSize fit)
      startDate endDate).map Prod.snd)).rows =
        clustered fit minClusterSize (readFrame m startDate endDate) :=
    rows_concat_afterCluster hdated minClusterSize fit
  rw [← clustered_eq, ← hrows]
  by_cases hnil : clustered fit minClusterSize (readFrame m startDate endDate) = []
  · rw [← hrows] at hnil
    unfold readFrame Part.withDefaults
    rw [hnil]
    rfl
  · obtain ⟨r, hr⟩ := List.exists_mem_of_ne_nil _ hnil
    obtain ⟨rows, hmem⟩ := exists_written hdated hr
    exact withDefaults_eq_rows (List.any_eq_true.mpr ⟨_, hmem, rfl⟩)
      (List.any_eq_true.mpr ⟨_, hmem, rfl⟩)

/-- The clustering of the two days, as the runs of the store leave them. -/
theorem readFrame_cluster_twoDays :
    (readFrame (afterCluster utcDate (final (step utcDate) (∅ : Store Unit) twoDays)
        "1970-01-01" "1970-01-31" 2 fun _ _ => some fun k => k) "1970-01-01" "1970-01-31" =
      (readFrame (final (step utcDate) (∅ : Store Unit) twoDays)
          "1970-01-01" "1970-01-31").mapIdx fun i r =>
        { r with
          cluster :=
            clusterOf (fun _ _ => some fun k => k) 2
              (readFrame (final (step utcDate) (∅ : Store Unit) twoDays)
                "1970-01-01" "1970-01-31") regimes i r }) ∧
      ∀ d, inRange "1970-01-01" "1970-01-31" d = false →
        (afterCluster utcDate (final (step utcDate) (∅ : Store Unit) twoDays)
            "1970-01-01" "1970-01-31" 2 fun _ _ => some fun k => k).lookup d =
          (final (step utcDate) (∅ : Store Unit) twoDays).lookup d :=
  readFrame_cluster (dated_final twoDays dated_twoDays) 2 fun _ _ => some fun k => k

end FeatureStore
end Ml
end MagnumOpus
