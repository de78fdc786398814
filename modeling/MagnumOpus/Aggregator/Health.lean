import MagnumOpus.Aggregator.GapWindow
import MagnumOpus.Aggregator.SnapshotDispatch

/-! # What the service says of its feeds

`cmd/aggregator/main.go` with its metrics and `/health`: the coordinator runs, a worker that merges
a snapshot sets the gauge of its feed, a gate waits at the start until all gauges are set, and
`/health` counts them.

* **Gauges.** A gauge says whether its feed has ever been live: it is never taken back, whatever
  becomes of the feed.
* **Gaps.** The window of gaps that `/health` counts is built empty, and nothing is added to it.
* **Answers.** What `/health` says is a function of what has been live (`health_says`), and once it
  has said `ok`, only symbols that are added can change that (`ok_stays`). -/

namespace MagnumOpus.Aggregator.Health

open EventMachine PanicProtocol
open GapWindow (Window)
open SnapshotDispatch (Coordinator CoordinatorInput)

/-! ### Metrics -/

/-- The labels of a feed. -/
structure SymbolKey where
  exchange : String
  symbol : String
deriving DecidableEq

/-- The metrics that the service reads itself. -/
structure Registry where
  /-- `aggregator_feed_state`. -/
  feedState : List (SymbolKey × ℕ) := []
  /-- Unix seconds. -/
  lastGapTimes : List (String × ℤ) := []
  /-- `aggregator_health` of the conditions `feeds` and `gaps`. -/
  healthFeeds : ℕ := 0
  healthGaps : ℕ := 0

/-- The series of a feed exists from now on. -/
def withLabelValues (k : SymbolKey) (series : List (SymbolKey × ℕ)) : List (SymbolKey × ℕ) :=
  if k ∈ series.map Prod.fst then series else series ++ [(k, 0)]

def setSeries (k : SymbolKey) (v : ℕ) (series : List (SymbolKey × ℕ)) : List (SymbolKey × ℕ) :=
  (withLabelValues k series).map fun x => if x.1 = k then (k, v) else x

/-- How many series are 1, and how many there are. -/
def feedCounts (series : List (SymbolKey × ℕ)) : ℕ × ℕ :=
  series.foldl (fun c x => (if x.2 = 1 then c.1 + 1 else c.1, c.2 + 1)) (0, 0)

def computeMinFeedState (series : List (SymbolKey × ℕ)) : ℕ :=
  series.foldl (fun least x => if x.2 < least then x.2 else least) 1

/-- Seconds, rounded down. -/
def unixSec (ns : Int64) : ℤ := ns.toInt.fdiv 1000000000

namespace Registry

def preInit (r : Registry) (pairs : List SymbolKey) : Registry :=
  { r with
    feedState := pairs.foldl (fun series k => withLabelValues k series) r.feedState
    healthFeeds := 1
    healthGaps := 1 }

def recordGap (r : Registry) (exchange symbol cause : String) (nowUnix : ℤ) : Registry :=
  if cause = "external_disconnect" ∨ cause = "internal_buffer_overflow" then r
  else
    let key := exchange ++ "/" ++ symbol
    { r with lastGapTimes := (key, nowUnix) :: r.lastGapTimes.filter (·.1 ≠ key) }

def gapHealthy (r : Registry) (windowSecs nowUnix : ℤ) : ℕ :=
  if r.lastGapTimes.any fun t => nowUnix - windowSecs ≤ t.2 then 0 else 1

/-- The goroutine that updates `aggregator_health`. -/
def updateHealth (r : Registry) (nowUnix : ℤ) : Registry :=
  { r with
    healthFeeds := computeMinFeedState r.feedState
    healthGaps := r.gapHealthy 300 nowUnix }

/-- What a worker records.  Its snapshot is written right before the gauge is set, and a gap right
before it is recorded; the one that is written at the end of a worker has a cause that is not. -/
def observe (r : Registry) : RunOutput → Registry
  | .did (.streamSnapshot exch sym _ _) =>
      { r with feedState := setSeries ⟨exch, sym⟩ 1 r.feedState }
  | .did (.ilpGap exch sym g) => r.recordGap exch sym g.cause.text (unixSec g.timestamp)
  | _ => r

end Registry

/-! ### The service -/

/-- Where `main` is after it has started the coordinator. -/
inductive Main where
  /-- In `runStartupGate`. -/
  | starting
  /-- Waits for a signal. -/
  | serving
  /-- In `coord.Shutdown`; it exits with the code afterwards. -/
  | stopping (code : ℕ)
  | exited (code : ℕ)
deriving DecidableEq

structure Service (ι : Type) where
  coordinator : Coordinator ι
  /-- The workers whose goroutine has been started. -/
  launched : List ι
  /-- `runSnapshotDispatcher` has not returned. -/
  dispatching : Bool := true
  /-- How many of the goroutines for ticks and signals have not returned. -/
  fanouts : ℕ
  registry : Registry
  gapWin : Window := {}
  startupReady : Bool := false
  main : Main := .starting

inductive Event (ι : Type)
  /-- Something the coordinator does; the cancellation is a signal to the process. -/
  | coordinator (e : CoordinatorInput ι)
  /-- A call of `AddSymbol` comes to `PreInit`. -/
  | preInit (k : SymbolKey)
  /-- It starts the worker. -/
  | launch (i : ι)
  | dispatcherReturns
  /-- The context is done, or an adapter has closed its channel. -/
  | fanoutReturns (closed : Bool)
  /-- The ticker of the startup gate. -/
  | poll
  /-- The timer of the startup gate. -/
  | deadline
  | updateHealth (nowUnix : ℤ)
  /-- `main` goes on. -/
  | proceed

inductive Output (ι : Type)
  | worker (i : ι) (o : RunOutput)
  | preInit (k : SymbolKey)
  | exit (code : ℕ)

structure HealthResponse where
  status : String
  connectedFeeds : ℕ
  gapCount24h : ℕ
deriving DecidableEq

/-- The labels of a worker. -/
def keyOf (w : Worker) : SymbolKey := ⟨w.exch, w.sym⟩

/-- `Run` has returned. -/
def hasReturned (r : Run) : Bool :=
  match r.code with
  | .returned => true
  | _ => false

namespace Service

variable {ι : Type} [DecidableEq ι]

def handleHealth (s : Service ι) (now : ℤ) : HealthResponse :=
  let counts := feedCounts s.registry.feedState
  let gapCount := s.gapWin.count now
  let status :=
    if s.startupReady = false then "starting"
    else if 0 < gapCount then "critical"
    else if counts.1 < counts.2 then "degraded"
    else "ok"
  ⟨status, counts.1, gapCount⟩

/-- A goroutine that could do this is there. -/
def enabled (s : Service ι) : CoordinatorInput ι → Bool
  | .worker i _ => i ∈ s.launched
  | .dispatch => s.dispatching
  | _ => true

def coordinate (cap : ℕ) (s : Service ι) (e : CoordinatorInput ι) :
    Service ι × List (Output ι) :=
  if s.enabled e then
    let r := SnapshotDispatch.step cap s.coordinator e
    ({ s with
       coordinator := r.1
       registry := r.2.foldl (fun reg o => reg.observe o.2) s.registry },
      r.2.map fun o => .worker o.1 o.2)
  else (s, [])

/-- One look of the startup gate at the gauges. -/
def poll (s : Service ι) : Service ι :=
  match s.main with
  | .starting =>
      let counts := feedCounts s.registry.feedState
      if 0 < counts.2 ∧ counts.1 = counts.2 then
        { s with startupReady := true, main := .serving }
      else s
  | _ => s

/-- The startup gate gives up. -/
def deadline (s : Service ι) : Service ι :=
  match s.main with
  | .starting => { s with main := .stopping 1 }
  | _ => s

/-- All goroutines of the coordinator have returned. -/
def joined (s : Service ι) : Bool :=
  !s.dispatching && s.fanouts == 0 && s.launched.all fun i => hasReturned (s.coordinator.workers i)

def proceed (s : Service ι) : Service ι × List (Output ι) :=
  match s.main with
  | .starting => (if s.coordinator.live then s else { s with main := .stopping 0 }, [])
  | .serving => (if s.coordinator.live then s else { s with main := .stopping 0 }, [])
  | .stopping code =>
      if s.joined then ({ s with main := .exited code }, [.exit code]) else (s, [])
  | .exited _ => (s, [])

def dispatcherReturns (s : Service ι) : Service ι :=
  if s.coordinator.live = false ∧ s.coordinator.fetches = [] then { s with dispatching := false }
  else s

def fanoutReturns (s : Service ι) (closed : Bool) : Service ι :=
  if s.coordinator.live = true ∧ closed = false then s else { s with fanouts := s.fanouts - 1 }

/-- A step of a process that has not exited. -/
def act (cap : ℕ) (s : Service ι) : Event ι → Service ι × List (Output ι)
  | .coordinator e => s.coordinate cap e
  | .preInit k => ({ s with registry := s.registry.preInit [k] }, [.preInit k])
  | .launch i => ({ s with launched := i :: s.launched }, [])
  | .dispatcherReturns => (s.dispatcherReturns, [])
  | .fanoutReturns closed => (s.fanoutReturns closed, [])
  | .poll => (s.poll, [])
  | .deadline => (s.deadline, [])
  | .updateHealth nowUnix => ({ s with registry := s.registry.updateHealth nowUnix }, [])
  | .proceed => s.proceed

def step (cap : ℕ) : Step (Service ι) (Event ι) (Output ι) := fun s e =>
  match s.main with
  | .exited _ => (s, [])
  | _ => s.act cap e

/-- The service when `main` has called `coord.Run`; without feeds the gate is open. -/
def start (w : ι → Worker) (entries : List ι) (fanouts : ℕ) : Service ι where
  coordinator := SnapshotDispatch.initial w
  launched := entries
  fanouts := fanouts
  registry := ({} : Registry).preInit (entries.map fun i => keyOf (w i))
  startupReady := entries.isEmpty
  main := if entries.isEmpty then .serving else .starting

/-! ### What a step does -/

/-- The cases of a step. -/
inductive Acted (cap : ℕ) (s : Service ι) : Service ι → List (Output ι) → Prop
  /-- Neither the coordinator nor what `main` and `/health` look at changes. -/
  | kept (s' : Service ι) (hcoordinator : s'.coordinator = s.coordinator)
      (hfeeds : s'.registry.feedState = s.registry.feedState) (hwindow : s'.gapWin = s.gapWin)
      (hready : s'.startupReady = s.startupReady) (hmain : s'.main = s.main)
      (hdispatching : s'.dispatching = s.dispatching ∨
        s.coordinator.live = false ∧ s.coordinator.fetches = []) :
      Acted cap s s' []
  | coordinated (e : CoordinatorInput ι) (henabled : s.enabled e = true) :
      Acted cap s
        { s with
          coordinator := (SnapshotDispatch.step cap s.coordinator e).1
          registry := (SnapshotDispatch.step cap s.coordinator e).2.foldl
            (fun reg o => reg.observe o.2) s.registry }
        ((SnapshotDispatch.step cap s.coordinator e).2.map fun o => .worker o.1 o.2)
  | added (k : SymbolKey) :
      Acted cap s { s with registry := s.registry.preInit [k] } [.preInit k]
  | opened (hmain : s.main = .starting)
      (hcounts : (feedCounts s.registry.feedState).1 = (feedCounts s.registry.feedState).2) :
      Acted cap s { s with startupReady := true, main := .serving } []
  | timedOut (hmain : s.main = .starting) : Acted cap s { s with main := .stopping 1 } []
  | stopped (hlive : s.coordinator.live = false) : Acted cap s { s with main := .stopping 0 } []
  | exited (code : ℕ) (hmain : s.main = .stopping code) (hjoined : s.joined = true) :
      Acted cap s { s with main := .exited code } [.exit code]

theorem Acted.same {cap : ℕ} {s : Service ι} : Acted cap s s [] :=
  .kept s rfl rfl rfl rfl rfl (.inl rfl)

theorem act_acted (cap : ℕ) (s : Service ι) (e : Event ι) :
    Acted cap s (s.act cap e).1 (s.act cap e).2 := by
  cases e with
  | coordinator e =>
      unfold act coordinate
      dsimp only
      split
      · next henabled => exact .coordinated e henabled
      · exact .same
  | preInit k => exact .added k
  | launch i => exact .kept _ rfl rfl rfl rfl rfl (.inl rfl)
  | dispatcherReturns =>
      unfold act dispatcherReturns
      dsimp only
      split
      · next hdone => exact .kept _ rfl rfl rfl rfl rfl (.inr hdone)
      · exact .same
  | fanoutReturns closed =>
      unfold act fanoutReturns
      dsimp only
      split
      · exact .same
      · exact .kept _ rfl rfl rfl rfl rfl (.inl rfl)
  | poll =>
      unfold act poll
      dsimp only
      split
      · next hmain =>
          split
          · next hcounts => exact .opened hmain hcounts.2
          · exact .same
      · exact .same
  | deadline =>
      unfold act deadline
      dsimp only
      split
      · next hmain => exact .timedOut hmain
      · exact .same
  | updateHealth nowUnix => exact .kept _ rfl rfl rfl rfl rfl (.inl rfl)
  | proceed =>
      unfold act proceed
      dsimp only
      split
      · split
        · exact .same
        · next hlive => exact .stopped (Bool.eq_false_of_not_eq_true hlive)
      · split
        · exact .same
        · next hlive => exact .stopped (Bool.eq_false_of_not_eq_true hlive)
      · next code hmain =>
          split
          · next hjoined => exact .exited code hmain hjoined
          · exact .same
      · exact .same

theorem step_eq (cap : ℕ) (s : Service ι) (e : Event ι) :
    ∃ s' more, step cap s e = (s', more) ∧ Acted cap s s' more := by
  refine ⟨_, _, rfl, ?_⟩
  split
  · exact .same
  · exact act_acted cap s e

end Service

/-! ### Gauges -/

/-- What the workers have set to 1, in order. -/
def wentLive {ι : Type} (seen : List (Output ι)) : List SymbolKey :=
  seen.filterMap fun o =>
    match o with
    | .worker _ (.did (.streamSnapshot exch sym _ _)) => some ⟨exch, sym⟩
    | _ => none

/-- What has been added to the running service. -/
def added {ι : Type} (seen : List (Output ι)) : List SymbolKey :=
  seen.filterMap fun o =>
    match o with
    | .preInit k => some k
    | _ => none

/-- The gauges of the feeds that are known, when those of `live` have been set. -/
structure Shown (known live : List SymbolKey) (series : List (SymbolKey × ℕ)) : Prop where
  nodup : (series.map Prod.fst).Nodup
  mem_keys : ∀ k, k ∈ series.map Prod.fst ↔ k ∈ known ∨ k ∈ live
  value : ∀ x ∈ series, x.2 = if x.1 ∈ live then 1 else 0

section Gauges

variable {known live : List SymbolKey} {series : List (SymbolKey × ℕ)} {k : SymbolKey}

theorem Shown.withLabelValues (h : Shown known live series) :
    Shown (known ++ [k]) live (withLabelValues k series) := by
  unfold Health.withLabelValues
  have hmem : ∀ k', k' ∈ known ++ [k] ∨ k' ∈ live ↔ (k' ∈ known ∨ k' ∈ live) ∨ k' = k := by
    intro k'
    rw [List.mem_append, List.mem_singleton, or_right_comm]
  split
  · next hk =>
      refine ⟨h.nodup, fun k' => ?_, h.value⟩
      rw [hmem, ← h.mem_keys]
      exact ⟨.inl, fun hk' => hk'.elim id fun heq => heq ▸ hk⟩
  · next hk =>
      refine ⟨?_, fun k' => ?_, fun x hx => ?_⟩
      · rw [List.map_append]
        refine List.nodup_append'.mpr ⟨h.nodup, List.nodup_singleton _, ?_⟩
        exact List.disjoint_singleton.mpr hk
      · rw [hmem, List.map_append, List.mem_append, h.mem_keys]
        exact or_congr_right List.mem_singleton
      · rcases List.mem_append.mp hx with hx | hx
        · exact h.value x hx
        · obtain rfl := List.mem_singleton.mp hx
          rw [if_neg fun hlive => hk ((h.mem_keys k).mpr (.inr hlive))]

theorem Shown.preInit (pairs : List SymbolKey) (h : Shown known live series) :
    Shown (known ++ pairs) live
      (pairs.foldl (fun series k => Health.withLabelValues k series) series) := by
  induction pairs generalizing known series with
  | nil =>
      rw [List.append_nil]
      exact h
  | cons k pairs ih =>
      rw [List.append_cons]
      exact ih h.withLabelValues

theorem Shown.setSeries (h : Shown known live series) :
    Shown known (live ++ [k]) (setSeries k 1 series) := by
  unfold Health.setSeries
  have hlabels : Shown (known ++ [k]) live (Health.withLabelValues k series) := h.withLabelValues
  have hkeys : ((Health.withLabelValues k series).map
      fun x => if x.1 = k then (k, 1) else x).map Prod.fst =
        (Health.withLabelValues k series).map Prod.fst := by
    rw [List.map_map]
    refine List.map_congr_left fun x _ => ?_
    simp only [Function.comp_apply]
    split
    · next hx => exact hx.symm
    · rfl
  refine ⟨hkeys ▸ hlabels.nodup, fun k' => ?_, fun x hx => ?_⟩
  · rw [hkeys, hlabels.mem_keys, List.mem_append, List.mem_append, or_right_comm, or_assoc]
  · obtain ⟨y, hy, rfl⟩ := List.mem_map.mp hx
    split
    · next hk => rw [if_pos (List.mem_append_right _ (List.mem_singleton.mpr rfl))]
    · next hk =>
        rw [hlabels.value y hy]
        refine if_congr ?_ rfl rfl
        rw [List.mem_append, List.mem_singleton, or_iff_left hk]

/-! ### Counts -/

theorem feedCounts_eq (series : List (SymbolKey × ℕ)) :
    feedCounts series = (series.countP fun x => x.2 = 1, series.length) := by
  have hfold : ∀ (series : List (SymbolKey × ℕ)) (c : ℕ × ℕ),
      series.foldl (fun c x => (if x.2 = 1 then c.1 + 1 else c.1, c.2 + 1)) c =
        (c.1 + series.countP fun x => x.2 = 1, c.2 + series.length) := by
    intro series
    induction series with
    | nil => exact fun c => rfl
    | cons x series ih =>
        intro c
        rw [List.foldl_cons, ih, List.countP_cons, List.length_cons]
        by_cases hx : x.2 = 1
        · simp only [hx, if_true, decide_true]
          exact Prod.ext (by dsimp only; omega) (by dsimp only; omega)
        · simp only [hx, if_false, decide_false, Bool.false_eq_true, Nat.add_zero]
          exact Prod.ext rfl (by dsimp only; omega)
  rw [feedCounts, hfold, Nat.zero_add, Nat.zero_add]

theorem Shown.one_iff (h : Shown known live series) {x : SymbolKey × ℕ} (hx : x ∈ series) :
    x.2 = 1 ↔ x.1 ∈ live := by
  rw [h.value x hx]
  split
  · next hlive => exact iff_of_true rfl hlive
  · next hlive => exact iff_of_false Nat.zero_ne_one hlive

/-- As many gauges are 1 as feeds have been live. -/
theorem Shown.connected (h : Shown known live series) :
    (series.countP fun x => x.2 = 1) = live.dedup.length := by
  have hcount : (series.countP fun x => x.2 = 1) =
      ((series.map Prod.fst).filter fun k => k ∈ live).length := by
    rw [← List.countP_eq_length_filter, List.countP_map]
    exact List.countP_congr fun x hx => by simp [h.one_iff hx]
  rw [hcount]
  have hnodup := h.nodup.filter fun k => decide (k ∈ live)
  refine List.Perm.length_eq ((List.perm_ext_iff_of_nodup hnodup live.nodup_dedup).mpr ?_)
  intro k
  rw [List.mem_filter, List.mem_dedup, h.mem_keys, decide_eq_true_iff]
  exact ⟨And.right, fun hk => ⟨.inr hk, hk⟩⟩

theorem Shown.connected_eq_iff (h : Shown known live series) :
    (series.countP fun x => x.2 = 1) = series.length ↔ ∀ k ∈ known, k ∈ live := by
  rw [List.countP_eq_length]
  constructor
  · intro hall k hk
    obtain ⟨x, hx, rfl⟩ := List.mem_map.mp ((h.mem_keys k).mpr (.inl hk))
    exact (h.one_iff hx).mp (of_decide_eq_true (hall x hx))
  · intro hall x hx
    rw [decide_eq_true_iff, h.one_iff hx]
    exact ((h.mem_keys x.1).mp (List.mem_map_of_mem hx)).elim (hall x.1) id

end Gauges

/-! ### Runs -/

section Runs

variable {ι : Type} {first known : List SymbolKey} {seen : List (Output ι)} {s : Service ι}

theorem wentLive_append (seen more : List (Output ι)) :
    wentLive (seen ++ more) = wentLive seen ++ wentLive more := List.filterMap_append

theorem added_append (seen more : List (Output ι)) :
    added (seen ++ more) = added seen ++ added more := List.filterMap_append

theorem added_workers (os : List (ι × RunOutput)) :
    added (os.map fun o => Output.worker o.1 o.2) = [] := by
  rw [added, List.filterMap_map]
  exact List.filterMap_eq_nil_iff.mpr fun _ _ => rfl

theorem feedState_recordGap (r : Registry) (exchange symbol cause : String) (nowUnix : ℤ) :
    (r.recordGap exchange symbol cause nowUnix).feedState = r.feedState := by
  unfold Registry.recordGap
  split <;> rfl

theorem Shown.observe {r : Registry} (h : Shown known (wentLive seen) r.feedState) (i : ι)
    (o : RunOutput) :
    Shown known (wentLive (seen ++ [.worker i o])) (r.observe o).feedState := by
  rw [wentLive_append]
  have hsame : Shown known (wentLive seen ++ []) r.feedState := by
    rw [List.append_nil]
    exact h
  cases o with
  | took input => exact hsame
  | panicked => exact hsame
  | returned => exact hsame
  | did e =>
      cases e with
      | streamSnapshot exch sym seq ts => exact h.setSeries
      | ilpGap exch sym g =>
          unfold Registry.observe
          dsimp only
          rw [feedState_recordGap]
          exact hsame
      | _ => exact hsame

theorem Shown.observeAll (os : List (ι × RunOutput)) {r : Registry}
    (h : Shown known (wentLive seen) r.feedState) :
    Shown known (wentLive (seen ++ os.map fun o => .worker o.1 o.2))
      (os.foldl (fun reg o => reg.observe o.2) r).feedState := by
  induction os generalizing seen r with
  | nil =>
      rw [List.map_nil, List.append_nil]
      exact h
  | cons o os ih =>
      rw [List.map_cons, List.append_cons]
      exact ih (h.observe o.1 o.2)

/-- What the service has of the feeds it has begun with, after what has been seen. -/
structure Told (first : List SymbolKey) (seen : List (Output ι)) (s : Service ι) : Prop where
  shown : Shown (first ++ added seen) (wentLive seen) s.registry.feedState
  window : s.gapWin = {}
  ready : s.startupReady = true → ∀ k ∈ first, k ∈ wentLive seen

/-- Nothing is seen of the feeds. -/
theorem Told.quiet {s' : Service ι} {more : List (Output ι)} (h : Told first seen s)
    (hadded : added more = []) (hlive : wentLive more = [])
    (hfeeds : s'.registry.feedState = s.registry.feedState) (hwindow : s'.gapWin = s.gapWin)
    (hready : s'.startupReady = true → s.startupReady = true ∨ ∀ k ∈ first, k ∈ wentLive seen) :
    Told first (seen ++ more) s' := by
  refine ⟨?_, hwindow.trans h.window, fun hs' => ?_⟩
  · rw [added_append, hadded, List.append_nil, wentLive_append, hlive, List.append_nil, hfeeds]
    exact h.shown
  · rw [wentLive_append, hlive, List.append_nil]
    exact (hready hs').elim h.ready id

theorem told_start (w : ι → Worker) (entries : List ι) (fanouts : ℕ) :
    Told (entries.map fun i => keyOf (w i)) [] (Service.start w entries fanouts) := by
  refine ⟨?_, rfl, fun hready k hk => ?_⟩
  · have hnone : Shown [] [] [] := ⟨List.nodup_nil, fun _ => by simp, fun _ hx => by cases hx⟩
    have hshown := hnone.preInit (entries.map fun i => keyOf (w i))
    rw [List.nil_append] at hshown
    rw [show added ([] : List (Output ι)) = [] from rfl, List.append_nil]
    exact hshown
  · obtain rfl := List.isEmpty_iff.mp hready
    cases hk

theorem count_new (now : ℤ) : ({} : Window).count now = 0 := by
  simp [Window.count]

/-- The answer of `/health`, in terms of what has been seen. -/
theorem Told.handleHealth (h : Told first seen s) (now : ℤ) :
    s.handleHealth now =
      { status :=
          if s.startupReady = false then "starting"
          else if ∀ k ∈ first ++ added seen, k ∈ wentLive seen then "ok" else "degraded"
        connectedFeeds := (wentLive seen).dedup.length
        gapCount24h := 0 } := by
  have hdegraded : (feedCounts s.registry.feedState).1 < (feedCounts s.registry.feedState).2 ↔
      ¬ ∀ k ∈ first ++ added seen, k ∈ wentLive seen := by
    rw [← h.shown.connected_eq_iff, feedCounts_eq]
    exact lt_iff_le_and_ne.trans (and_iff_right List.countP_le_length)
  unfold Service.handleHealth
  dsimp only
  rw [h.window, count_new, if_neg (lt_irrefl 0), if_congr hdegraded rfl rfl, ite_not]
  rw [feedCounts_eq, h.shown.connected]

variable [DecidableEq ι] {cap : ℕ}

theorem Told.step (h : Told first seen s) (e : Event ι) :
    Told first (seen ++ (Service.step cap s e).2) (Service.step cap s e).1 := by
  obtain ⟨s', more, hstep, hacted⟩ := Service.step_eq cap s e
  rw [hstep]
  cases hacted with
  | kept _ hcoordinator hfeeds hwindow hready hmain hdispatching =>
      exact h.quiet rfl rfl hfeeds hwindow fun hs' => .inl (hready ▸ hs')
  | coordinated e henabled =>
      refine ⟨?_, h.window, fun hready k hk => ?_⟩
      · rw [added_append, added_workers, List.append_nil]
        exact h.shown.observeAll _
      · rw [wentLive_append]
        exact List.mem_append_left _ (h.ready hready k hk)
  | added k =>
      refine ⟨?_, h.window, fun hready k' hk' => ?_⟩
      · rw [added_append, ← List.append_assoc, wentLive_append]
        have hshown := h.shown.preInit [k]
        rw [← List.append_nil (wentLive seen)] at hshown
        exact hshown
      · rw [wentLive_append]
        exact List.mem_append_left _ (h.ready hready k' hk')
  | opened hmain hcounts =>
      -- the gate opens when all gauges are set
      refine h.quiet rfl rfl rfl rfl fun _ => .inr fun k hk => ?_
      rw [feedCounts_eq] at hcounts
      exact h.shown.connected_eq_iff.mp hcounts k (List.mem_append_left _ hk)
  | timedOut hmain => exact h.quiet rfl rfl rfl rfl .inl
  | stopped hlive => exact h.quiet rfl rfl rfl rfl .inl
  | exited code hmain hjoined => exact h.quiet rfl rfl rfl rfl .inl

variable (cap) in
theorem told_run (w : ι → Worker) (entries : List ι) (fanouts : ℕ) (es : List (Event ι)) :
    Told (entries.map fun i => keyOf (w i))
      (trace (Service.step cap) (Service.start w entries fanouts) es)
      (final (Service.step cap) (Service.start w entries fanouts) es) :=
  seen_invariant (I := Told (entries.map fun i => keyOf (w i))) (told_start w entries fanouts)
    (fun _ _ e h => h.step e) es

/-! ### What `/health` says -/

/-- **Health**: `/health` counts the feeds that have ever been live, and never a gap; it says `ok`
when that is every feed that has been configured or added, whatever has become of it.  When it does
not say `starting` any more, all configured feeds have been live. -/
theorem health_says (cap : ℕ) (w : ι → Worker) (entries : List ι) (fanouts : ℕ)
    (es : List (Event ι)) (now : ℤ) :
    let s := final (Service.step cap) (Service.start w entries fanouts) es
    let seen := trace (Service.step cap) (Service.start w entries fanouts) es
    let configured := entries.map fun i => keyOf (w i)
    s.handleHealth now =
        { status :=
            if s.startupReady = false then "starting"
            else if ∀ k ∈ configured ++ added seen, k ∈ wentLive seen then "ok" else "degraded"
          connectedFeeds := (wentLive seen).dedup.length
          gapCount24h := 0 } ∧
      (s.startupReady = true → ∀ k ∈ configured, k ∈ wentLive seen) :=
  have htold := told_run cap w entries fanouts es
  ⟨htold.handleHealth now, htold.ready⟩

variable (cap) in
/-- The gate does not close again. -/
theorem startupReady_run (es : List (Event ι)) (h : s.startupReady = true) :
    (final (Service.step cap) s es).startupReady = true := by
  refine final_invariant (I := fun s : Service ι => s.startupReady = true) (fun s e h => ?_) es h
  obtain ⟨s', more, hstep, hacted⟩ := Service.step_eq cap s e
  rw [hstep]
  cases hacted with
  | kept _ hcoordinator hfeeds hwindow hready hmain hdispatching => exact hready.trans h
  | opened hmain hcounts => rfl
  | _ => exact h

/-- **Lost feeds**: after an `ok`, nothing but an added symbol that has not been live yet makes
`/health` say anything else. -/
theorem ok_stays (cap : ℕ) (w : ι → Worker) (entries : List ι) (fanouts : ℕ)
    (es es' : List (Event ι)) (now now' : ℤ)
    (hok : ((final (Service.step cap) (Service.start w entries fanouts) es).handleHealth now).status
      = "ok") :
    let s := final (Service.step cap) (Service.start w entries fanouts) es
    let seen := trace (Service.step cap) (Service.start w entries fanouts) es
    let later := trace (Service.step cap) s es'
    ((final (Service.step cap) s es').handleHealth now').status =
      if ∀ k ∈ added later, k ∈ wentLive (seen ++ later) then "ok" else "degraded" := by
  intro s seen later
  have htold := told_run cap w entries fanouts es
  have htold' := told_run cap w entries fanouts (es ++ es')
  rw [final_append, trace_append] at htold'
  rw [htold.handleHealth] at hok
  rw [htold'.handleHealth]
  dsimp only at hok ⊢
  split at hok
  · exact absurd hok (by decide)
  · next hready =>
      have hready' := startupReady_run cap es' (Bool.eq_true_of_not_eq_false hready)
      rw [if_neg (by rw [hready']; decide)]
      split at hok
      · next hall =>
          refine if_congr ?_ rfl rfl
          rw [added_append, ← List.append_assoc]
          constructor
          · exact fun h k hk => h k (List.mem_append_right _ hk)
          · intro h k hk
            rcases List.mem_append.mp hk with hk | hk
            · rw [wentLive_append]
              exact List.mem_append_left _ (hall k hk)
            · exact h k hk
      · exact absurd hok (by decide)

end Runs

/-- A feed goes live. -/
def firstLive : List (Event Unit) :=
  let fetching : SnapshotDispatch.Fetch Unit := ⟨(), 0, 0, none⟩
  let goOn : Event Unit := .coordinator (.worker () (.goOn false))
  (SnapshotDispatch.firstRequest.map .coordinator) ++
    [.coordinator (.fetched fetching (some ⟨7, ∅, ∅⟩)),
      .coordinator (.send { fetching with result := some ⟨7, ∅, ∅⟩ }),
      .coordinator (.worker () (.result 0)), goOn, goOn, goOn, goOn, goOn, goOn, .poll]

/-- The worker panics, and its feed is lost until the next snapshot. -/
def feedLost : List (Event Unit) := [.coordinator (.worker () (.panics .new .new 0))]

theorem ok_when_lost :
    ((final (Service.step 17)
        (final (Service.step 17)
          (Service.start (fun _ => Worker.new "bybit" "BTC-USDT" false) [()] 3) firstLive)
        feedLost).handleHealth 0).status = "ok" :=
  (ok_stays 17 (fun _ => Worker.new "bybit" "BTC-USDT" false) [()] 3 firstLive feedLost 0 0
    (by decide +kernel)).trans (if_pos (by decide +kernel))

end MagnumOpus.Aggregator.Health
