import MagnumOpus.Aggregator.SnapshotRequests

/-! # The snapshot dispatcher

The workers of a coordinator hand their requests to one channel (`snapReqs`); the dispatcher
(`coordinator/snapshot.go`) takes them off it and starts a goroutine for each, which fetches until
it succeeds and then waits for room in the result channel of the worker that asked.

* **Workers.** Every worker of a coordinator runs as `Run` does (`run_of_coordinator`).
* **Waiting.** The dispatcher can bring a result to a worker that waits for a snapshot, without any
  worker (`never_in_vain`).
* **Answers.** A worker takes results of its own requests only, each at most once, as they were
  fetched (`answered_once`). -/

namespace MagnumOpus.Aggregator.SnapshotDispatch

open EventMachine PanicProtocol

/-! ### The coordinator -/

section

variable {ι : Type} [DecidableEq ι]

/-- A goroutine of the dispatcher, in `fetchWithRetry` or at its send. -/
structure Fetch (ι : Type) where
  worker : ι
  request : ℕ
  attempt : ℕ
  result : Option SnapshotResult
  deriving DecidableEq

def Fetch.key (f : Fetch ι) : ι × ℕ := (f.worker, f.request)

/-- The workers with the dispatcher.  What a worker has in its list `fetching` is not used here. -/
structure Coordinator (ι : Type) where
  workers : ι → Run
  snapReqs : List (ι × ℕ)
  fetches : List (Fetch ι)
  live : Bool := true

inductive CoordinatorInput (ι : Type)
  | cancel
  | worker (i : ι) (e : RunInput)
  | dispatch
  /-- An attempt ends. -/
  | fetched (f : Fetch ι) (result : Option SnapshotResult)
  | send (f : Fetch ι)
  /-- A goroutine finds the context done. -/
  | quit (f : Fetch ι)

def advance (c : Coordinator ι) (i : ι) (e : RunInput) : Coordinator ι × List (ι × RunOutput) :=
  ({ c with workers := Function.update c.workers i (Run.step (c.workers i) e).1 },
    (Run.step (c.workers i) e).2.map (i, ·))

/-- The goroutine goes on as another one. -/
def replace (c : Coordinator ι) (f f' : Fetch ι) : Coordinator ι :=
  { c with fetches := f' :: c.fetches.erase f }

/-- A step of a worker; a request waits for room in the channel. -/
def workerStep (cap : ℕ) (c : Coordinator ι) (i : ι) (e : RunInput) :
    Coordinator ι × List (ι × RunOutput) :=
  if (Run.step (c.workers i) e).1.requests = (c.workers i).requests then advance c i e
  else if c.snapReqs.length < cap then
    ({ (advance c i e).1 with snapReqs := c.snapReqs ++ [(i, (c.workers i).requests)] },
      (advance c i e).2)
  else (c, [])

def step (cap : ℕ) : Step (Coordinator ι) (CoordinatorInput ι) (ι × RunOutput) := fun c e =>
  match e with
  | .cancel =>
      ({ c with live := false, workers := fun i => (Run.step (c.workers i) .cancel).1 }, [])
  | .worker _ .cancel => (c, [])
  | .worker _ (.arrive _ _) => (c, [])
  | .worker i e => workerStep cap c i e
  | .dispatch =>
      match c.snapReqs with
      | [] => (c, [])
      | (i, k) :: rest =>
          ({ c with snapReqs := rest, fetches := ⟨i, k, 0, none⟩ :: c.fetches }, [])
  | .fetched f result =>
      if f ∈ c.fetches ∧ f.result = none then
        match result with
        | some r => (replace c f { f with result := some r }, [])
        | none =>
            if c.live then (replace c f { f with attempt := f.attempt + 1 }, [])
            else ({ c with fetches := c.fetches.erase f }, [])
      else (c, [])
  | .send f =>
      match f.result with
      | none => (c, [])
      | some r =>
          if f ∈ c.fetches ∧ (c.workers f.worker).resultCh = none then
            ({ (advance c f.worker (.arrive r f.request)).1 with fetches := c.fetches.erase f },
              (advance c f.worker (.arrive r f.request)).2)
          else (c, [])
  | .quit f => (if c.live then c else { c with fetches := c.fetches.erase f }, [])

def initial (w : ι → Worker) : Coordinator ι := ⟨fun i => Run.start (w i), [], [], true⟩

/-- What one worker does. -/
def ofWorker (i : ι) (seen : List (ι × RunOutput)) : List RunOutput :=
  (seen.filter (·.1 = i)).map Prod.snd

/-! ### Workers -/

variable {cap : ℕ} {c : Coordinator ι} {w : ι → Worker}

/-- A run of `Run` inside of a step of the coordinator. -/
def Runs (c c' : Coordinator ι) (seen : List (ι × RunOutput)) (i : ι) : Prop :=
  ∃ inputs, c'.workers i = final Run.step (c.workers i) inputs ∧
    ofWorker i seen = trace Run.step (c.workers i) inputs

theorem Runs.idle {c' : Coordinator ι} {i : ι} (h : c'.workers = c.workers) : Runs c c' [] i :=
  ⟨[], congrFun h i, rfl⟩

theorem runs_advance {c' : Coordinator ι} {j : ι} {e : RunInput}
    (h : c'.workers = (advance c j e).1.workers) (i : ι) : Runs c c' (advance c j e).2 i := by
  unfold Runs
  rw [h]
  by_cases hij : i = j
  · subst hij
    refine ⟨[e], Function.update_self _ _ _, ?_⟩
    simp [advance, ofWorker, List.filter_map, Function.comp_def]
  · refine ⟨[], Function.update_of_ne hij _ _, ?_⟩
    simp [advance, ofWorker, List.filter_map, Function.comp_def, Ne.symm hij]

theorem runs_workerStep (c : Coordinator ι) (j : ι) (e : RunInput) (i : ι) :
    Runs c (workerStep cap c j e).1 (workerStep cap c j e).2 i := by
  unfold workerStep
  split
  · exact runs_advance rfl i
  · split
    · exact runs_advance rfl i
    · exact .idle rfl

theorem runs_step (c : Coordinator ι) (e : CoordinatorInput ι) (i : ι) :
    Runs c (step cap c e).1 (step cap c e).2 i := by
  cases e with
  | cancel => exact ⟨[.cancel], rfl, rfl⟩
  | worker j e =>
      cases e with
      | cancel => exact .idle rfl
      | arrive r k => exact .idle rfl
      | _ => exact runs_workerStep c j _ i
  | dispatch =>
      unfold step
      dsimp only
      split <;> exact .idle rfl
  | fetched f result =>
      unfold step
      dsimp only
      split
      · split
        · exact .idle rfl
        · split <;> exact .idle rfl
      · exact .idle rfl
  | send f =>
      unfold step
      dsimp only
      split
      · exact .idle rfl
      · split
        · exact runs_advance rfl i
        · exact .idle rfl
  | quit f =>
      unfold step
      dsimp only
      split <;> exact .idle rfl

/-- **Every worker of a coordinator runs as `Run` does.** -/
theorem run_of_coordinator (cap : ℕ) (w : ι → Worker) (es : List (CoordinatorInput ι)) (i : ι) :
    ∃ inputs, (final (step cap) (initial w) es).workers i =
        final Run.step (Run.start (w i)) inputs ∧
      ofWorker i (trace (step cap) (initial w) es) = trace Run.step (Run.start (w i)) inputs := by
  refine history_invariant (I := fun es (c : Coordinator ι) =>
    ∃ inputs, c.workers i = final Run.step (Run.start (w i)) inputs ∧
      ofWorker i (trace (step cap) (initial w) es) = trace Run.step (Run.start (w i)) inputs)
    ⟨[], rfl, rfl⟩ (fun es e ih => ?_) es
  obtain ⟨inputs, hworker, htrace⟩ := ih
  obtain ⟨more, hworker', htrace'⟩ := @runs_step _ _ cap (final (step cap) (initial w) es) e i
  refine ⟨inputs ++ more, ?_, ?_⟩
  · rw [hworker', hworker, final_append]
  · rw [trace_append, trace_cons, trace_nil, List.append_nil, ofWorker, List.filter_append,
      List.map_append, trace_append, ← hworker]
    exact congrArg₂ _ htrace htrace'

/-! ### Requests -/

/-- The requests that the dispatcher has. -/
def inFlight (c : Coordinator ι) : List (ι × ℕ) := c.snapReqs ++ c.fetches.map Fetch.key

/-- The dispatcher has the requests that the workers take it to have; it may drop some when the
context is done. -/
structure Accounted (c : Coordinator ι) : Prop where
  live : c.live = true → ∀ i, (c.workers i).live = true
  held : ∀ i k, (inFlight c).count (i, k) ≤ (c.workers i).fetching.count k
  kept : c.live = true → ∀ i k, (c.workers i).fetching.count k ≤ (inFlight c).count (i, k)

/-- A step makes one request at most, and answers none. -/
def Asks (s s' : Run) : Prop :=
  s'.live = s.live ∧ (s'.requests = s.requests ∧ s'.fetching = s.fetching ∨
    s'.requests = s.requests + 1 ∧ s'.fetching = s.requests :: s.fetching)

theorem asks_same {s s' : Run} (hlive : s'.live = s.live) (hrequests : s'.requests = s.requests)
    (hfetching : s'.fetching = s.fetching) : Asks s s' :=
  ⟨hlive, .inl ⟨hrequests, hfetching⟩⟩

theorem asks_goOn (s : Run) (refused : Bool) : Asks s (s.goOn refused).1 := by
  unfold Run.goOn
  split
  · next task line rest hcode =>
      split
      · exact asks_same rfl rfl rfl
      · cases line with
        | drain => exact asks_same rfl rfl rfl
        | work stmt =>
            unfold Run.execute
            dsimp only
            split
            · split
              · split <;> exact asks_same rfl rfl rfl
              · exact ⟨rfl, .inr ⟨rfl, rfl⟩⟩
            · exact asks_same rfl rfl rfl
  · next task hcode =>
      unfold Run.finish
      split
      · exact asks_same rfl rfl rfl
      · exact asks_same rfl rfl rfl
      · exact asks_same rfl rfl rfl
      · split <;> exact asks_same rfl rfl rfl
  · exact asks_same rfl rfl rfl

/-- What a step of a worker alone does to its requests. -/
theorem asks_step (s : Run) {e : RunInput} (harrive : ∀ r k, e ≠ .arrive r k)
    (hcancel : e ≠ .cancel) : Asks s (Run.step s e).1 := by
  cases e with
  | cancel => exact absurd rfl hcancel
  | arrive r k => exact absurd rfl (harrive r k)
  | goOn refused => exact asks_goOn s refused
  | tick t now =>
      unfold Run.step
      dsimp only
      split <;> exact asks_same rfl rfl rfl
  | result now =>
      unfold Run.step
      dsimp only
      split
      · split <;> exact asks_same rfl rfl rfl
      · exact asks_same rfl rfl rfl
  | done now =>
      unfold Run.step
      dsimp only
      split <;> exact asks_same rfl rfl rfl
  | panics book recon now =>
      unfold Run.step
      dsimp only
      split <;> exact asks_same rfl rfl rfl

/-- A step that moves as many requests here as there. -/
theorem Accounted.balance {c' : Coordinator ι} (h : Accounted c) (hlive : c'.live = c.live)
    (hworkers : ∀ i, (c'.workers i).live = (c.workers i).live)
    (hcount : ∀ i k, (inFlight c').count (i, k) + (c.workers i).fetching.count k =
      (inFlight c).count (i, k) + (c'.workers i).fetching.count k) : Accounted c' := by
  refine ⟨fun hc i => ?_, fun i k => ?_, fun hc i k => ?_⟩
  · rw [hworkers]
    exact h.live (hlive ▸ hc) i
  · have hheld := h.held i k
    have hmoved := hcount i k
    omega
  · have hkept := h.kept (hlive ▸ hc) i k
    have hmoved := hcount i k
    omega

/-- A goroutine that leaves when the context is done. -/
theorem Accounted.drop (h : Accounted c) (hlive : c.live = false) (f : Fetch ι) :
    Accounted { c with fetches := c.fetches.erase f } := by
  refine ⟨h.live, fun i k => ?_, fun hc => absurd (hlive.symm.trans hc) (by decide)⟩
  refine le_trans (List.Sublist.count_le _ ?_) (h.held i k)
  exact List.Sublist.append_left (List.erase_sublist.map Fetch.key) _

theorem count_erase {f : Fetch ι} (hf : f ∈ c.fetches) (x : ι × ℕ) :
    (c.fetches.map Fetch.key).count x =
      ((c.fetches.erase f).map Fetch.key).count x + if f.key = x then 1 else 0 := by
  rw [((List.perm_cons_erase hf).map Fetch.key).count_eq, List.map_cons, List.count_cons]
  simp only [beq_iff_eq]

theorem Accounted.replace (h : Accounted c) {f f' : Fetch ι} (hf : f ∈ c.fetches)
    (hkey : f'.key = f.key) : Accounted (replace c f f') := by
  refine h.balance rfl (fun _ => rfl) fun i k => ?_
  have hold := count_erase hf (i, k)
  show (c.snapReqs ++ (f' :: c.fetches.erase f).map Fetch.key).count (i, k) + _ = _
  rw [inFlight, List.count_append, List.count_append, List.map_cons, List.count_cons, hold, hkey]
  simp only [beq_iff_eq]
  rfl

/-- A worker that moves, and nobody else. -/
theorem advance_worker (c : Coordinator ι) (j : ι) (e : RunInput) (i : ι) :
    i = j ∧ (advance c j e).1.workers i = (Run.step (c.workers j) e).1 ∨
      i ≠ j ∧ (advance c j e).1.workers i = c.workers i := by
  by_cases hij : i = j
  · subst hij
    exact .inl ⟨rfl, Function.update_self _ _ _⟩
  · exact .inr ⟨hij, Function.update_of_ne hij _ _⟩

theorem accounted_workerStep (h : Accounted c) (j : ι) {e : RunInput}
    (harrive : ∀ r k, e ≠ .arrive r k) (hcancel : e ≠ .cancel) :
    Accounted (workerStep cap c j e).1 := by
  obtain ⟨hlive, hfetching⟩ := asks_step (c.workers j) harrive hcancel
  have hworkers : ∀ i, ((advance c j e).1.workers i).live = (c.workers i).live := by
    intro i
    rcases advance_worker c j e i with ⟨rfl, hi⟩ | ⟨-, hi⟩
    · rw [hi, hlive]
    · rw [hi]
  unfold workerStep
  split
  · next hrequests =>
      have hsame : (Run.step (c.workers j) e).1.fetching = (c.workers j).fetching := by
        rcases hfetching with ⟨-, hsame⟩ | ⟨hnext, -⟩
        · exact hsame
        · omega
      refine h.balance rfl hworkers fun i k => ?_
      rcases advance_worker c j e i with ⟨rfl, hi⟩ | ⟨-, hi⟩
      · rw [hi, hsame]
        rfl
      · rw [hi]
        rfl
  · next hrequests =>
      have hnew : (Run.step (c.workers j) e).1.fetching =
          (c.workers j).requests :: (c.workers j).fetching := by
        rcases hfetching with ⟨hsame, -⟩ | ⟨-, hnew⟩
        · exact absurd hsame hrequests
        · exact hnew
      split
      · refine h.balance rfl hworkers fun i k => ?_
        show (c.snapReqs ++ [(j, (c.workers j).requests)] ++ c.fetches.map Fetch.key).count (i, k) +
          _ = _ + ((advance c j e).1.workers i).fetching.count k
        rw [inFlight, List.count_append, List.count_append, List.count_append, List.count_singleton]
        rcases advance_worker c j e i with ⟨rfl, hi⟩ | ⟨hij, hi⟩
        · rw [hi, hnew, List.count_cons]
          simp only [Prod.mk.injEq, true_and, beq_iff_eq]
          omega
        · rw [hi]
          simp [Ne.symm hij]
      · exact h

theorem accounted_send (h : Accounted c) {f : Fetch ι} {r : SnapshotResult} (hf : f ∈ c.fetches)
    (hch : (c.workers f.worker).resultCh = none) :
    (Run.step (c.workers f.worker) (.arrive r f.request)).1.resultCh = some (r, f.request) ∧
      Accounted { (advance c f.worker (.arrive r f.request)).1 with
        fetches := c.fetches.erase f } := by
  have hheld : f.request ∈ (c.workers f.worker).fetching := by
    refine List.count_pos_iff.mp (lt_of_lt_of_le ?_ (h.held f.worker f.request))
    refine List.count_pos_iff.mpr (List.mem_append_right _ ?_)
    exact List.mem_map_of_mem (f := Fetch.key) hf
  have hstep : (Run.step (c.workers f.worker) (.arrive r f.request)).1 =
      { c.workers f.worker with
        resultCh := some (r, f.request)
        fetching := (c.workers f.worker).fetching.erase f.request } := by
    simp only [Run.step, hch, Option.isNone_none, hheld, and_self, if_true]
  refine ⟨by rw [hstep], h.balance rfl (fun i => ?_) fun i k => ?_⟩
  · rcases advance_worker c f.worker (.arrive r f.request) i with ⟨rfl, hi⟩ | ⟨-, hi⟩
    · rw [hi, hstep]
    · rw [hi]
  · have hold := count_erase hf (i, k)
    show (c.snapReqs ++ (c.fetches.erase f).map Fetch.key).count (i, k) + _ =
      _ + ((advance c f.worker (.arrive r f.request)).1.workers i).fetching.count k
    rw [inFlight, List.count_append, List.count_append, hold]
    rcases advance_worker c f.worker (.arrive r f.request) i with ⟨rfl, hi⟩ | ⟨hij, hi⟩
    · have hout := (List.perm_cons_erase hheld).count_eq k
      rw [List.count_cons] at hout
      rw [hi, hstep, hout, Fetch.key]
      simp only [Prod.mk.injEq, true_and, beq_iff_eq]
      omega
    · rw [hi, Fetch.key, if_neg fun hkey => hij (Prod.mk.inj hkey).1.symm]
      omega

theorem accounted_step (h : Accounted c) (e : CoordinatorInput ι) :
    Accounted (step cap c e).1 := by
  cases e with
  | cancel =>
      exact ⟨fun hc => (by cases hc), h.held, fun hc => by cases hc⟩
  | worker j e =>
      cases e with
      | cancel => exact h
      | arrive r k => exact h
      | _ => exact accounted_workerStep h j (fun _ _ => by simp) (by simp)
  | dispatch =>
      unfold step
      dsimp only
      split
      · exact h
      · next i k rest hqueue =>
          refine h.balance rfl (fun _ => rfl) fun i' k' => ?_
          show (rest ++ (i, k) :: c.fetches.map Fetch.key).count (i', k') + _ =
            _ + (c.workers i').fetching.count k'
          rw [inFlight, hqueue, List.count_append, List.count_append, List.count_cons,
            List.count_cons]
          omega
  | fetched f result =>
      unfold step
      dsimp only
      split
      · next hf =>
          split
          · exact h.replace hf.1 rfl
          · split
            · exact h.replace hf.1 rfl
            · next hlive => exact h.drop (Bool.eq_false_of_not_eq_true hlive) f
      · exact h
  | send f =>
      unfold step
      dsimp only
      split
      · exact h
      · split
        · next hf => exact (accounted_send h hf.1 hf.2).2
        · exact h
  | quit f =>
      unfold step
      dsimp only
      split
      · exact h
      · next hlive => exact h.drop (Bool.eq_false_of_not_eq_true hlive) f

theorem accounted_initial (w : ι → Worker) : Accounted (initial w) :=
  ⟨fun _ _ => rfl, fun _ _ => Nat.le_refl 0, fun _ _ _ => Nat.le_refl 0⟩

theorem accounted_final (cap : ℕ) (w : ι → Worker) (es : List (CoordinatorInput ι)) :
    Accounted (final (step cap) (initial w) es) :=
  final_invariant (I := Accounted) (fun _ e h => accounted_step h e) es (accounted_initial w)

/-! ### Waiting -/

/-- What the dispatcher does when fetches succeed with `r`. -/
def Delivers (r : SnapshotResult) : CoordinatorInput ι → Prop
  | .dispatch => True
  | .fetched _ result => result = some r
  | .send _ => True
  | _ => False

/-- The dispatcher brings the worker a result. -/
def Reaches (cap : ℕ) (c : Coordinator ι) (i : ι) (r : SnapshotResult) : Prop :=
  ∃ es, (∀ e ∈ es, Delivers r e) ∧ ((final (step cap) c es).workers i).resultCh.isSome = true

theorem Reaches.cons {i : ι} {r : SnapshotResult} {e : CoordinatorInput ι} (he : Delivers r e)
    (h : Reaches cap (step cap c e).1 i r) : Reaches cap c i r := by
  obtain ⟨es, hes, harrived⟩ := h
  exact ⟨e :: es, List.forall_mem_cons.mpr ⟨he, hes⟩, harrived⟩

theorem reaches_of_result (h : Accounted c) {f : Fetch ι} (hf : f ∈ c.fetches) {r' : SnapshotResult}
    (hresult : f.result = some r') (r : SnapshotResult) : Reaches cap c f.worker r := by
  cases hch : (c.workers f.worker).resultCh with
  | some x => exact ⟨[], fun _ he => absurd he List.not_mem_nil, by rw [final_nil, hch]; rfl⟩
  | none =>
      refine .cons (e := .send f) trivial ⟨[], fun _ he => absurd he List.not_mem_nil, ?_⟩
      have harrived := (accounted_send h (r := r') hf hch).1
      simp only [final_nil, step, hresult, hf, hch, and_self, if_true, advance,
        Function.update_self, harrived, Option.isSome_some]

theorem reaches_of_fetch (h : Accounted c) {f : Fetch ι} (hf : f ∈ c.fetches) (r : SnapshotResult) :
    Reaches cap c f.worker r := by
  cases hresult : f.result with
  | some r' => exact reaches_of_result h hf hresult r
  | none =>
      refine .cons (e := .fetched f (some r)) rfl ?_
      have hstep : (step cap c (.fetched f (some r))).1 =
          replace c f { f with result := some r } := by
        simp only [step, hf, hresult, and_self, if_true]
      rw [hstep]
      have hnext : Accounted (replace c f { f with result := some r }) := h.replace hf rfl
      exact reaches_of_result hnext (f := { f with result := some r }) List.mem_cons_self rfl r

theorem reaches_of_queue {i : ι} {k : ℕ} (r : SnapshotResult) : ∀ {queue : List (ι × ℕ)}
    {c : Coordinator ι}, c.snapReqs = queue → Accounted c → (i, k) ∈ queue → Reaches cap c i r
  | [], _, _, _, hmem => absurd hmem List.not_mem_nil
  | (j, n) :: rest, c, hqueue, h, hmem => by
      refine .cons (e := .dispatch) trivial ?_
      have hnext := @accounted_step _ _ cap c h .dispatch
      have hstep : (step cap c .dispatch).1 =
          { c with snapReqs := rest, fetches := ⟨j, n, 0, none⟩ :: c.fetches } := by
        simp only [step, hqueue]
      rw [hstep] at hnext ⊢
      rcases List.mem_cons.mp hmem with hhead | hrest
      · obtain ⟨rfl, rfl⟩ := Prod.mk.inj hhead
        exact reaches_of_fetch hnext (f := ⟨i, k, 0, none⟩) List.mem_cons_self r
      · exact reaches_of_queue r rfl hnext hrest

/-- **No worker waits in vain.**  In whatever order workers, panics, the dispatcher and its
goroutines have gone on: while the context is live, a worker that waits for a snapshot gets a
result from the dispatcher alone, as soon as fetches succeed. -/
theorem never_in_vain (cap : ℕ) {w : ι → Worker} (hw : ∀ i, (w i).recon.state = .initial)
    (es : List (CoordinatorInput ι)) {i : ι}
    (hlive : (final (step cap) (initial w) es).live = true)
    (hcode : ((final (step cap) (initial w) es).workers i).code = .selecting)
    (hbuffering : ((final (step cap) (initial w) es).workers i).worker.recon.state = .buffering)
    (r : SnapshotResult) : Reaches cap (final (step cap) (initial w) es) i r := by
  have haccounted := accounted_final cap w es
  obtain ⟨inputs, hrun, -⟩ := run_of_coordinator cap w es i
  have hprovided := provided_run (hw i) inputs (hrun ▸ haccounted.live hlive i)
  rw [← hrun, Provided, hcode] at hprovided
  rcases hprovided hbuffering with harrived | hfetching
  · exact ⟨[], fun _ he => absurd he List.not_mem_nil, harrived⟩
  · obtain ⟨k, hk⟩ := List.exists_mem_of_ne_nil _ hfetching
    have hmem : (i, k) ∈ inFlight (final (step cap) (initial w) es) :=
      List.count_pos_iff.mp
        (lt_of_lt_of_le (List.count_pos_iff.mpr hk) (haccounted.kept hlive i k))
    rcases List.mem_append.mp hmem with hqueued | hfetched
    · exact reaches_of_queue r rfl haccounted hqueued
    · obtain ⟨f, hf, hkey⟩ := List.mem_map.mp hfetched
      obtain ⟨rfl, -⟩ := Prod.mk.inj hkey
      exact reaches_of_fetch haccounted hf r

/-! ### Answers -/

theorem resultCh_step (s : Run) {e : RunInput} {r : SnapshotResult} {k : ℕ}
    (h : (Run.step s e).1.resultCh = some (r, k)) :
    s.resultCh = some (r, k) ∨ e = .arrive r k := by
  have hstep := step_stepped s e
  revert h hstep
  generalize (Run.step s e).1 = s'
  generalize (Run.step s e).2 = seen
  intro h hstep
  cases hstep with
  | idle _ hworker hcode hlive hch => exact hch r k h
  | took ch input now hcode hch hresult hdone => exact .inl (hch r k h)
  | drained task rest hcode => cases h
  | returned task rest _ hcode htask hrest hcode' hlive hch => exact .inl (hch ▸ h)
  | _ => exact .inl h

theorem took_step (s : Run) {e : RunInput} {r : SnapshotResult} {k : ℕ}
    (h : .took (.snapshot r k) ∈ (Run.step s e).2) : s.resultCh = some (r, k) := by
  have hstep := step_stepped s e
  revert h hstep
  generalize (Run.step s e).1 = s'
  generalize (Run.step s e).2 = seen
  intro h hstep
  cases hstep with
  | took ch input now hcode hch hresult hdone =>
      cases List.mem_singleton.mp h
      exact hresult r k rfl
  | executed task stmt rest effects fetching requests hcode heffects =>
      obtain ⟨f, -, heq⟩ := List.mem_map.mp h
      cases heq
  | returned => cases List.mem_singleton.mp h
  | panicked => cases List.mem_singleton.mp h
  | _ => cases h

/-- A fetch for the request has returned the result. -/
def Got (es : List (CoordinatorInput ι)) (i : ι) (k : ℕ) (r : SnapshotResult) : Prop :=
  ∃ attempt, .fetched ⟨i, k, attempt, none⟩ (some r) ∈ es

/-- The results under way are results of their requests. -/
structure Fetched (es : List (CoordinatorInput ι)) (c : Coordinator ι) : Prop where
  fetches : ∀ f ∈ c.fetches, ∀ r, f.result = some r → Got es f.worker f.request r
  arrived : ∀ i r k, (c.workers i).resultCh = some (r, k) → Got es i k r

omit [DecidableEq ι] in
theorem Got.append {es : List (CoordinatorInput ι)} {i : ι} {k : ℕ} {r : SnapshotResult}
    (h : Got es i k r) (fs : List (CoordinatorInput ι)) : Got (es ++ fs) i k r :=
  h.imp fun _ => List.mem_append_left fs

omit [DecidableEq ι] in
theorem Fetched.append {es : List (CoordinatorInput ι)} (h : Fetched es c)
    (fs : List (CoordinatorInput ι)) : Fetched (es ++ fs) c :=
  ⟨fun f hf r hr => (h.fetches f hf r hr).append fs,
    fun i r k hr => (h.arrived i r k hr).append fs⟩

/-- A worker that moves finds no result but what is brought. -/
theorem fetched_advance {es : List (CoordinatorInput ι)} (h : Fetched es c) (j : ι) {e : RunInput}
    (harrive : ∀ r k, e = .arrive r k → Got es j k r) (i : ι) (r : SnapshotResult) (k : ℕ)
    (hr : ((advance c j e).1.workers i).resultCh = some (r, k)) : Got es i k r := by
  rcases advance_worker c j e i with ⟨rfl, hi⟩ | ⟨-, hi⟩
  · rw [hi] at hr
    exact (resultCh_step _ hr).elim (h.arrived i r k) (harrive r k)
  · rw [hi] at hr
    exact h.arrived i r k hr

theorem fetched_workerStep {es : List (CoordinatorInput ι)} (h : Fetched es c) (j : ι)
    {e : RunInput} (harrive : ∀ r k, e ≠ .arrive r k) : Fetched es (workerStep cap c j e).1 := by
  have hnew := fetched_advance h j fun r k he => absurd he (harrive r k)
  unfold workerStep
  split
  · exact ⟨h.fetches, hnew⟩
  · split
    · exact ⟨h.fetches, hnew⟩
    · exact h

theorem Fetched.erase {es : List (CoordinatorInput ι)} (h : Fetched es c) (f : Fetch ι) :
    Fetched es { c with fetches := c.fetches.erase f } :=
  ⟨fun f' hf' => h.fetches f' (List.mem_of_mem_erase hf'), h.arrived⟩

theorem fetched_step {es : List (CoordinatorInput ι)} (h : Fetched es c) (e : CoordinatorInput ι) :
    Fetched (es ++ [e]) (step cap c e).1 := by
  have hpast := h.append [e]
  cases e with
  | cancel => exact ⟨hpast.fetches, hpast.arrived⟩
  | worker j e =>
      cases e with
      | cancel => exact hpast
      | arrive r k => exact hpast
      | _ => exact fetched_workerStep hpast j fun _ _ => by simp
  | dispatch =>
      unfold step
      dsimp only
      split
      · exact hpast
      · refine ⟨List.forall_mem_cons.mpr ⟨fun r hr => (by cases hr), hpast.fetches⟩, hpast.arrived⟩
  | fetched f result =>
      unfold step
      dsimp only
      split
      · next hf =>
          split
          · next r =>
              refine ⟨List.forall_mem_cons.mpr ⟨fun r' hr' => ?_, ?_⟩, hpast.arrived⟩
              · obtain rfl := Option.some.inj hr'
                refine ⟨f.attempt, List.mem_append_right es (List.mem_singleton.mpr ?_)⟩
                exact congrArg (fun g => CoordinatorInput.fetched g (some r)) (by rw [← hf.2])
              · exact fun f' hf' => hpast.fetches f' (List.mem_of_mem_erase hf')
          · split
            · refine ⟨List.forall_mem_cons.mpr ⟨fun r hr => ?_, ?_⟩, hpast.arrived⟩
              · exact absurd (hf.2.symm.trans hr) (by simp)
              · exact fun f' hf' => hpast.fetches f' (List.mem_of_mem_erase hf')
            · exact hpast.erase f
      · exact hpast
  | send f =>
      unfold step
      dsimp only
      split
      · exact hpast
      · next r hresult =>
          split
          · next hf =>
              refine ⟨(hpast.erase f).fetches, fetched_advance hpast f.worker fun r' k' he => ?_⟩
              cases he
              exact hpast.fetches f hf.1 r hresult
          · exact hpast
  | quit f =>
      unfold step
      dsimp only
      split
      · exact hpast
      · exact hpast.erase f

theorem fetched_final (cap : ℕ) (w : ι → Worker) (es : List (CoordinatorInput ι)) :
    Fetched es (final (step cap) (initial w) es) :=
  history_invariant (I := Fetched)
    ⟨fun _ hf => absurd hf List.not_mem_nil, fun _ _ _ hr => by cases hr⟩
    (fun _ e h => fetched_step h e) es

/-- What is seen of a worker comes from a step of it. -/
theorem mem_step {i : ι} {o : RunOutput} {e : CoordinatorInput ι} (h : (i, o) ∈ (step cap c e).2) :
    ∃ e', o ∈ (Run.step (c.workers i) e').2 := by
  have hadvance : ∀ {j e'}, (i, o) ∈ (advance c j e').2 →
      ∃ e', o ∈ (Run.step (c.workers i) e').2 := by
    intro j e' hmem
    obtain ⟨o', ho', heq⟩ := List.mem_map.mp hmem
    obtain ⟨rfl, rfl⟩ := Prod.mk.inj heq
    exact ⟨e', ho'⟩
  have hworker : ∀ {j e'}, (i, o) ∈ (workerStep cap c j e').2 →
      ∃ e', o ∈ (Run.step (c.workers i) e').2 := by
    intro j e' hmem
    unfold workerStep at hmem
    split at hmem
    · exact hadvance hmem
    · split at hmem
      · exact hadvance hmem
      · exact absurd hmem List.not_mem_nil
  cases e with
  | cancel => exact absurd h List.not_mem_nil
  | worker j e =>
      cases e with
      | cancel => exact absurd h List.not_mem_nil
      | arrive r k => exact absurd h List.not_mem_nil
      | _ => exact hworker h
  | dispatch =>
      unfold step at h
      dsimp only at h
      split at h <;> exact absurd h List.not_mem_nil
  | fetched f result =>
      unfold step at h
      dsimp only at h
      split at h
      · split at h
        · exact absurd h List.not_mem_nil
        · split at h <;> exact absurd h List.not_mem_nil
      · exact absurd h List.not_mem_nil
  | send f =>
      unfold step at h
      dsimp only at h
      split at h
      · exact absurd h List.not_mem_nil
      · split at h
        · exact hadvance h
        · exact absurd h List.not_mem_nil
  | quit f => exact absurd h List.not_mem_nil

/-- **Answers.**  A worker never takes two results for one request, and what it takes was fetched
for a request that it made itself. -/
theorem answered_once (cap : ℕ) (w : ι → Worker) (es : List (CoordinatorInput ι)) (i : ι) :
    (answers (ofWorker i (trace (step cap) (initial w) es))).Nodup ∧
      ∀ r k, .took (.snapshot r k) ∈ ofWorker i (trace (step cap) (initial w) es) →
        k < ((final (step cap) (initial w) es).workers i).requests ∧ Got es i k r := by
  obtain ⟨inputs, hrun, htrace⟩ := run_of_coordinator cap w es i
  have hnumbered := numbered_run (w i) inputs
  rw [← hrun, ← htrace] at hnumbered
  refine ⟨hnumbered.once, fun r k hmem => ⟨hnumbered.answered k ?_, ?_⟩⟩
  · exact List.mem_filterMap.mpr ⟨_, hmem, rfl⟩
  · obtain ⟨⟨i', o⟩, hfiltered, rfl⟩ := List.mem_map.mp hmem
    obtain ⟨hseen, hi⟩ := List.mem_filter.mp hfiltered
    obtain rfl : i' = i := of_decide_eq_true hi
    obtain ⟨xs, ys, hsplit⟩ := List.append_of_mem hseen
    obtain ⟨es₁, e, es₂, us, vs, rfl, hstep, -, -⟩ := trace_eq_append_cons hsplit
    obtain ⟨e', htook⟩ := mem_step (hstep ▸ List.mem_append_right us List.mem_cons_self)
    exact ((fetched_final cap w es₁).arrived i' r k (took_step _ htook)).append (e :: es₂)

end

/-! ### One worker -/

/-- A worker that has asked for its first snapshot, which is being fetched. -/
def firstRequest : List (CoordinatorInput Unit) :=
  [.worker () (.goOn false), .worker () (.goOn false), .worker () (.goOn false), .dispatch]

theorem first_request_reaches :
    Reaches 17 (final (step 17) (initial fun _ => Worker.new "bybit" "BTC-USDT" false) firstRequest)
      () ⟨7, ∅, ∅⟩ :=
  never_in_vain 17 (fun _ => rfl) firstRequest rfl rfl rfl _

end MagnumOpus.Aggregator.SnapshotDispatch
