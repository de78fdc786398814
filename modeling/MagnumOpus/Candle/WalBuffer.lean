import Mathlib.Data.List.Perm.Basic
import Mathlib.Data.List.Range
import MagnumOpus.Candle.Consumer

/-! # The buffer for a suspended table

`writer.go` of `questdb`: while the table is suspended, `WriteBar` puts bars into a bounded buffer,
and a probe that runs beside the consumer finds out about the suspension, resumes the table and
drains the buffer.

* **Interleaving.** The consumer loads the flag and acts on it later; the probe clears the flag,
  then swaps the buffer, then writes what it took, one bar at a time.  Every one of these is an
  event of its own, and the context may be cancelled at any time.
* **Losses.** `losesNoBar_of_safe`: as long as a bar is put into the buffer while a drain is to
  come, the context is not cancelled over buffered bars, and no bar is written past a buffered one
  for the same row, every accepted bar is accounted for and no row is replaced by an older one. -/

namespace MagnumOpus.Candle

open EventMachine

/-- What tells the rows of the table apart. -/
abbrev RowKey := Int64 × String × String

def Bar.rowKey (b : Bar) : RowKey := (b.tsSecMs, b.exchange, b.symbol)

/-- A bar that `WriteBar` has accepted, with the number of accepted ones before it. -/
structure AcceptedBar where
  nr : ℕ
  bar : Bar
deriving DecidableEq

/-- How an attempt to write a row ends; one that fails is made again. -/
inductive WriteEnd where
  | written
  | failed
  | ctxDone
deriving DecidableEq

/-- Where a call of `WriteBar` is. -/
inductive Calling where
  | enqueuing (bar : Bar)
  | writing (bar : Bar)
deriving DecidableEq

/-- Where the probe is. -/
inductive Probe where
  | idle
  | resuming
  /-- The flag is cleared, and the buffer not yet taken. -/
  | swapping
  | draining (buf : List AcceptedBar)
deriving DecidableEq

/-- What the probe has taken from the buffer. -/
def Probe.buf : Probe → List AcceptedBar
  | .draining buf => buf
  | _ => []

inductive WalEvent where
  /-- `WriteBar` is called and loads the flag. -/
  | call (bar : Bar)
  | enqueue
  | attempt (how : WriteEnd)
  /-- The probe asks whether the table is suspended; an error is `none`. -/
  | probe (suspended : Option Bool)
  | resume (ok : Bool)
  | swap
  | drain (how : WriteEnd)
  | cancel
deriving DecidableEq

/-- A writer with its probe. -/
structure WalWriter where
  walBufferSize : ℤ
  walSuspended : Bool := false
  walBuf : List AcceptedBar := []
  call : Option Calling := none
  probe : Probe := .idle
  cancelled : Bool := false
  crashed : Bool := false
  accepted : ℕ := 0
  /-- The rows written, the latest first. -/
  rows : List AcceptedBar := []
  /-- One for each increment of `walDropTotal`. -/
  dropped : List AcceptedBar := []
deriving DecidableEq

namespace WalWriter

def new (walBufferSize : ℤ) : WalWriter where
  walBufferSize := walBufferSize

/-- Adds a bar to the buffer, in place of the oldest when it is full; shows that `WriteBar` returned
without an error. -/
def enqueueWAL (s : WalWriter) (b : Bar) : WalWriter × List Bool :=
  if s.walBufferSize ≤ s.walBuf.length then
    match s.walBuf with
    -- An empty slice cannot be cut.
    | [] => ({ s with crashed := true }, [])
    | oldest :: rest =>
        ({ s with
           walBuf := rest ++ [⟨s.accepted, b⟩]
           dropped := oldest :: s.dropped
           accepted := s.accepted + 1
           call := none }, [true])
  else
    ({ s with
       walBuf := s.walBuf ++ [⟨s.accepted, b⟩]
       accepted := s.accepted + 1
       call := none }, [true])

/-- An attempt of `WriteBar` to write past the buffer. -/
def writeBar (s : WalWriter) (b : Bar) : WriteEnd → WalWriter × List Bool
  | .written =>
      ({ s with
         rows := ⟨s.accepted, b⟩ :: s.rows
         accepted := s.accepted + 1
         call := none }, [true])
  | .failed => (s, [])
  | .ctxDone => ({ s with call := none }, [false])

/-- The first half of `probeAndResume`. -/
def probeAndResume (s : WalWriter) : Option Bool → WalWriter
  | none => s
  | some true => { s with walSuspended := true, probe := .resuming }
  | some false => if s.walSuspended then { s with walSuspended := false, probe := .swapping } else s

def resumeWAL (s : WalWriter) (ok : Bool) : WalWriter :=
  if ok then { s with walSuspended := false, probe := .swapping } else { s with probe := .idle }

/-- The drain goes on with what is left. -/
def drainOn (s : WalWriter) (buf : List AcceptedBar) : WalWriter :=
  { s with probe := if buf = [] then .idle else .draining buf }

/-- An attempt of the drain to write its next bar. -/
def drainWAL (s : WalWriter) (x : AcceptedBar) (rest : List AcceptedBar) : WriteEnd → WalWriter
  | .written => { s with rows := x :: s.rows }.drainOn rest
  | .failed => s
  -- The rest of the bars is given up as well.
  | .ctxDone => if s.cancelled then { s with probe := .idle } else s

/-- Shows what `WriteBar` returns: whether it is without an error. -/
def step : Step WalWriter WalEvent Bool := fun s e =>
  if s.crashed then (s, []) else
  match e with
  | .call b =>
      if s.call = none then
        ({ s with call := some (if s.walSuspended then .enqueuing b else .writing b) }, [])
      else (s, [])
  | .enqueue =>
      match s.call with
      | some (.enqueuing b) => s.enqueueWAL b
      | _ => (s, [])
  | .attempt how =>
      match s.call with
      | some (.writing b) => s.writeBar b how
      | _ => (s, [])
  -- A request under a cancelled context fails.
  | .probe suspended =>
      (if s.probe = .idle ∧ s.cancelled = false then s.probeAndResume suspended else s, [])
  | .resume ok => (if s.probe = .resuming then s.resumeWAL ok else s, [])
  | .swap => (if s.probe = .swapping then { s with walBuf := [] }.drainOn s.walBuf else s, [])
  | .drain how =>
      match s.probe with
      | .draining (x :: rest) => (s.drainWAL x rest how, [])
      | _ => (s, [])
  | .cancel => ({ s with cancelled := true }, [])

/-! ### What is lost -/

/-- The process runs, but no call and no probe. -/
def Quiescent (s : WalWriter) : Prop := s.crashed = false ∧ s.call = none ∧ s.probe = .idle

/-- The row of the table for a key: the last one written. -/
def stored (s : WalWriter) (k : RowKey) : Option AcceptedBar := s.rows.find? (·.bar.rowKey = k)

/-- The next probe, of a table that takes every row. -/
def nextDrain (s : WalWriter) : List WalEvent :=
  [.probe (some false), .swap] ++ List.replicate s.walBuf.length (.drain .written)

/-- Every accepted bar is written, buffered or counted as dropped, just once; what is buffered will
be drained; and no written bar has been replaced by one accepted before it. -/
structure LosesNoBar (s : WalWriter) : Prop where
  accounted : ((s.rows ++ s.walBuf ++ s.dropped).map AcceptedBar.nr).Perm (List.range s.accepted)
  drained : ∀ x ∈ s.walBuf, x ∈ (final step s s.nextDrain).rows
  newest : ∀ x ∈ s.rows, ∀ y ∈ s.stored x.bar.rowKey, x.nr ≤ y.nr

/-- The bars that are buffered or being drained, in order. -/
def pending (s : WalWriter) : List AcceptedBar := s.probe.buf ++ s.walBuf

/-- The buffer will be taken: it is about to be, or the flag will make the probe do so. -/
def DrainToCome (s : WalWriter) : Prop :=
  s.probe = .swapping ∨ s.walSuspended = true ∧ (s.cancelled = false ∨ s.probe = .resuming)

/-- The step leaves no bar behind and writes none past another for the same row. -/
def Safe (s : WalWriter) : WalEvent → Prop
  | .enqueue => ∀ b, s.call = some (.enqueuing b) → 0 < s.walBufferSize → s.DrainToCome
  | .attempt how => how = .written → ∀ b, s.call = some (.writing b) →
      ∀ y ∈ s.pending, y.bar.rowKey ≠ b.rowKey
  | .resume ok => s.probe = .resuming → ok = false → s.cancelled = true → s.walBuf = []
  | .drain how => how = .ctxDone → s.cancelled = true → s.probe.buf = []
  | .cancel => s.walBuf = [] ∨ s.probe = .resuming ∨ s.probe = .swapping
  | _ => True

/-! ### The invariant -/

/-- The bars for one row come in the order in which they were accepted. -/
def InOrder (xs : List AcceptedBar) : Prop :=
  xs.Pairwise fun x y => x.bar.rowKey = y.bar.rowKey → x.nr < y.nr

structure Inv (s : WalWriter) : Prop where
  accounted : ((s.rows ++ s.pending ++ s.dropped).map AcceptedBar.nr).Perm (List.range s.accepted)
  ordered : InOrder (s.rows.reverse ++ s.pending)
  toCome : s.walBuf = [] ∨ s.DrainToCome

variable {s : WalWriter} {b : Bar}

theorem inv_new (walBufferSize : ℤ) : (new walBufferSize).Inv where
  accounted := List.Perm.refl []
  ordered := List.Pairwise.nil
  toCome := .inl rfl

theorem Inv.nr_lt (h : s.Inv) {x : AcceptedBar} (hx : x ∈ s.rows ++ s.pending ++ s.dropped) :
    x.nr < s.accepted :=
  List.mem_range.mp (h.accounted.mem_iff.mp (List.mem_map_of_mem hx))

/-- A state that differs in where the bars that are not written wait. -/
theorem Inv.of_eq {s' : WalWriter} (h : s.Inv) (hrows : s'.rows = s.rows)
    (hpending : s'.pending = s.pending) (hdropped : s'.dropped = s.dropped)
    (haccepted : s'.accepted = s.accepted) (hcome : s'.walBuf = [] ∨ s'.DrainToCome) : s'.Inv where
  accounted := by
    rw [hrows, hpending, hdropped, haccepted]
    exact h.accounted
  ordered := by
    rw [hrows, hpending]
    exact h.ordered
  toCome := hcome

theorem perm_range_succ {n : ℕ} {l l' : List AcceptedBar}
    (h : (l.map AcceptedBar.nr).Perm (List.range n)) (hl : l'.Perm (⟨n, b⟩ :: l)) :
    (l'.map AcceptedBar.nr).Perm (List.range (n + 1)) := by
  have hcons : (l'.map AcceptedBar.nr).Perm (n :: List.range n) := (hl.map _).trans (h.cons n)
  rw [List.range_succ]
  exact hcons.trans (List.perm_append_singleton n _).symm

theorem InOrder.concat {xs : List AcceptedBar} {x : AcceptedBar} (h : InOrder xs)
    (hlt : ∀ y ∈ xs, y.nr < x.nr) : InOrder (xs ++ [x]) := by
  refine List.pairwise_append.mpr ⟨h, List.pairwise_singleton _ _, fun y hy z hz _ => ?_⟩
  rw [List.mem_singleton.mp hz]
  exact hlt y hy

/-! ### One step -/

theorem inv_enqueueWAL (h : s.Inv) (hcome : 0 < s.walBufferSize → s.DrainToCome) :
    (s.enqueueWAL b).1.Inv := by
  have hlt : ∀ y ∈ s.rows.reverse ++ s.pending, y.nr < s.accepted := by
    intro y hy
    apply h.nr_lt
    simp only [List.mem_append, List.mem_reverse] at hy ⊢
    exact .inl hy
  have hordered := h.ordered.concat (x := ⟨s.accepted, b⟩) hlt
  unfold enqueueWAL
  split
  next hfull =>
    cases hbuf : s.walBuf with
    | nil => exact h.of_eq rfl (by rw [pending, pending, hbuf]) rfl rfl (.inl rfl)
    | cons oldest rest =>
        have hcome' : s.DrainToCome := h.toCome.resolve_left (hbuf ▸ List.cons_ne_nil _ _)
        have haccounted := h.accounted
        simp only [pending, hbuf] at hordered haccounted
        refine ⟨perm_range_succ (b := b) haccounted ?_, ?_, .inr hcome'⟩
        · rw [List.perm_iff_count]
          intro y
          simp only [pending, List.count_append, List.count_cons, List.count_nil]
          omega
        · refine List.Pairwise.sublist ?_ hordered
          simp only [pending, List.append_assoc]
          apply List.Sublist.append_left
          apply List.Sublist.append_left
          exact List.sublist_cons_self _ _
  next hroom =>
    have hpos : 0 < s.walBufferSize := by omega
    refine ⟨perm_range_succ (b := b) h.accounted ?_, ?_, .inr (hcome hpos)⟩
    · rw [List.perm_iff_count]
      intro y
      simp only [pending, List.count_append, List.count_cons, List.count_nil]
      omega
    · simpa only [pending, List.append_assoc] using hordered

/-- A bar that is written past the buffer comes before none for the same row. -/
theorem inv_writeBar (h : s.Inv) (how : WriteEnd)
    (hkey : how = .written → ∀ y ∈ s.pending, y.bar.rowKey ≠ b.rowKey) :
    (s.writeBar b how).1.Inv := by
  cases how with
  | failed => exact h
  | ctxDone => exact ⟨h.accounted, h.ordered, h.toCome⟩
  | written =>
      obtain ⟨hrows, hpending, hcross⟩ := List.pairwise_append.mp h.ordered
      have hlt : ∀ y ∈ s.rows.reverse, y.nr < s.accepted := by
        intro y hy
        apply h.nr_lt
        simp only [List.mem_append, List.mem_reverse] at hy ⊢
        exact .inl (.inl hy)
      refine ⟨perm_range_succ (b := b) h.accounted (List.Perm.refl _), ?_, h.toCome⟩
      simp only [writeBar, List.reverse_cons]
      refine List.pairwise_append.mpr ⟨InOrder.concat hrows hlt, hpending, fun y hy z hz hyz => ?_⟩
      rcases List.mem_append.mp hy with hold | hnew
      · exact hcross y hold z hz hyz
      · rw [List.mem_singleton.mp hnew] at hyz
        exact absurd hyz.symm (hkey rfl z hz)

theorem inv_probeAndResume (h : s.Inv) (hidle : s.probe = .idle) (hlive : s.cancelled = false)
    (suspended : Option Bool) : (s.probeAndResume suspended).Inv := by
  have hpending : s.pending = s.walBuf := by rw [pending, hidle]; rfl
  cases suspended with
  | none => exact h
  | some answer =>
      cases answer with
      | true => exact h.of_eq rfl hpending.symm rfl rfl (.inr (.inr ⟨rfl, .inl hlive⟩))
      | false =>
          simp only [probeAndResume]
          split
          · exact h.of_eq rfl hpending.symm rfl rfl (.inr (.inl rfl))
          · exact h

theorem inv_resumeWAL (h : s.Inv) (hresuming : s.probe = .resuming) {ok : Bool}
    (hbuf : ok = false → s.cancelled = true → s.walBuf = []) : (s.resumeWAL ok).Inv := by
  have hpending : s.pending = s.walBuf := by rw [pending, hresuming]; rfl
  cases ok with
  | true => exact h.of_eq rfl hpending.symm rfl rfl (.inr (.inl rfl))
  | false =>
      refine h.of_eq rfl hpending.symm rfl rfl ?_
      cases hlive : s.cancelled with
      | true => exact .inl (hbuf rfl hlive)
      | false =>
          -- The flag stays set for the next probe.
          rcases h.toCome with hempty | hswapping | ⟨hflag, -⟩
          · exact .inl hempty
          · rw [hresuming] at hswapping
            cases hswapping
          · exact .inr (.inr ⟨hflag, .inl hlive⟩)

@[simp] theorem buf_drainOn (s : WalWriter) (buf : List AcceptedBar) :
    (s.drainOn buf).probe.buf = buf := by
  unfold drainOn
  split
  next hnil => exact hnil.symm
  next => rfl

theorem inv_swap (h : s.Inv) (hswapping : s.probe = .swapping) :
    ({ s with walBuf := [] }.drainOn s.walBuf).Inv := by
  refine h.of_eq rfl ?_ rfl rfl (.inl rfl)
  rw [pending, buf_drainOn, pending, hswapping]
  exact List.append_nil s.walBuf

/-- While the probe drains, only the flag makes for another drain. -/
theorem toCome_of_draining {buf : List AcceptedBar} (h : s.Inv)
    (hdraining : s.probe = .draining buf) :
    s.walBuf = [] ∨ s.walSuspended = true ∧ s.cancelled = false := by
  rcases h.toCome with hempty | hswapping | ⟨hflag, hlive | hresuming⟩
  · exact .inl hempty
  · rw [hdraining] at hswapping
    cases hswapping
  · exact .inr ⟨hflag, hlive⟩
  · rw [hdraining] at hresuming
    cases hresuming

theorem inv_drainWAL (h : s.Inv) {x : AcceptedBar} {rest : List AcceptedBar}
    (hdraining : s.probe = .draining (x :: rest)) {how : WriteEnd}
    (hlive : how = .ctxDone → s.cancelled = true → s.probe.buf = []) :
    (s.drainWAL x rest how).Inv := by
  cases how with
  | failed => exact h
  | ctxDone =>
      simp only [drainWAL]
      split
      next hcancelled =>
        have hnil := hlive rfl hcancelled
        rw [hdraining] at hnil
        cases hnil
      next => exact h
  | written =>
      have hpending : s.pending = x :: (rest ++ s.walBuf) := by rw [pending, hdraining]; rfl
      have hrest : ({ s with rows := x :: s.rows }.drainOn rest).pending = rest ++ s.walBuf := by
        rw [pending, buf_drainOn]
        rfl
      have hcome := toCome_of_draining h hdraining
      obtain ⟨haccounted, hordered, -⟩ := h
      rw [hpending] at haccounted hordered
      refine ⟨?_, ?_, hcome.imp_right fun hflag => .inr ⟨hflag.1, .inl hflag.2⟩⟩
      · rw [drainWAL, hrest]
        have hmiddle : (s.rows ++ x :: (rest ++ s.walBuf)).Perm
            (x :: (s.rows ++ (rest ++ s.walBuf))) := List.perm_middle
        exact ((hmiddle.symm.append_right s.dropped).map AcceptedBar.nr).trans haccounted
      · rw [drainWAL, hrest]
        simpa [drainOn] using hordered

theorem inv_step (h : s.Inv) (e : WalEvent) (hsafe : s.Safe e) : (step s e).1.Inv := by
  unfold step
  split
  · exact h
  cases e with
  | call b =>
      dsimp only
      split
      · exact h.of_eq rfl rfl rfl rfl h.toCome
      · exact h
  | enqueue =>
      dsimp only
      split
      next b hcall => exact inv_enqueueWAL h (hsafe b hcall)
      next => exact h
  | attempt how =>
      dsimp only
      split
      next b hcall => exact inv_writeBar h how fun hwritten => hsafe hwritten b hcall
      next => exact h
  | probe suspended =>
      dsimp only
      split
      next hidle => exact inv_probeAndResume h hidle.1 hidle.2 suspended
      next => exact h
  | resume ok =>
      dsimp only
      split
      next hresuming => exact inv_resumeWAL h hresuming (hsafe hresuming)
      next => exact h
  | swap =>
      dsimp only
      split
      next hswapping => exact inv_swap h hswapping
      next => exact h
  | drain how =>
      dsimp only
      split
      next x rest hdraining => exact inv_drainWAL h hdraining hsafe
      next => exact h
  | cancel =>
      refine h.of_eq rfl rfl rfl rfl ?_
      rcases hsafe with hempty | hresuming | hswapping
      · exact .inl hempty
      · rcases h.toCome with hempty | hswapping | ⟨hflag, -⟩
        · exact .inl hempty
        · exact .inr (.inl hswapping)
        · exact .inr (.inr ⟨hflag, .inr hresuming⟩)
      · exact .inr (.inl hswapping)

/-! ### Whole runs -/

/-- A drain writes all that it has taken when the table takes every row. -/
theorem rows_drainOn (hrunning : s.crashed = false) (buf : List AcceptedBar) :
    (final step (s.drainOn buf) (List.replicate buf.length (.drain .written))).rows =
      buf.reverse ++ s.rows := by
  induction buf generalizing s with
  | nil => rfl
  | cons x rest ih =>
      have hstep : (step (s.drainOn (x :: rest)) (.drain .written)).1 =
          { s with rows := x :: s.rows }.drainOn rest := by
        simp [step, drainOn, drainWAL, hrunning]
      rw [List.length_cons, List.replicate_succ, final_cons, hstep, ih (by exact hrunning),
        List.reverse_cons, List.append_assoc]
      rfl

/-- A drain under a flag that is set writes the whole buffer. -/
theorem rows_nextDrain (hidle : s.probe = .idle) (hflag : s.walSuspended = true)
    (hlive : s.cancelled = false) (hrunning : s.crashed = false) :
    (final step s s.nextDrain).rows = s.walBuf.reverse ++ s.rows := by
  have hprobe : (step s (.probe (some false))).1 =
      { s with walSuspended := false, probe := .swapping } := by
    simp [step, probeAndResume, hidle, hflag, hlive, hrunning]
  have hswap : (step { s with walSuspended := false, probe := .swapping } .swap).1 =
      { s with walSuspended := false, probe := .swapping, walBuf := [] }.drainOn s.walBuf := by
    simp [step, hrunning]
  rw [nextDrain, final_append, final_cons, final_cons, final_nil, hprobe, hswap, rows_drainOn]
  exact hrunning

/-- The first of a list that is in order backwards is the newest. -/
theorem nr_le_of_stored (h : InOrder s.rows.reverse) {x y : AcceptedBar} (hx : x ∈ s.rows)
    (hy : s.stored x.bar.rowKey = some y) : x.nr ≤ y.nr := by
  obtain ⟨hkey, newer, older, hrows, hnewer⟩ := List.find?_eq_some_iff_append.mp hy
  rw [hrows] at hx h
  rcases List.mem_append.mp hx with hx | hx
  · exact absurd (hnewer x hx) (by simp)
  · rcases List.mem_cons.mp hx with rfl | hx
    · exact le_refl _
    · have hback := (List.pairwise_append.mp (List.pairwise_reverse.mp h)).2.1
      exact le_of_lt ((List.pairwise_cons.mp hback).1 x hx (of_decide_eq_true hkey).symm)

theorem Inv.losesNoBar (h : s.Inv) (hquiet : s.Quiescent) : s.LosesNoBar := by
  obtain ⟨hrunning, -, hidle⟩ := hquiet
  have hpending : s.pending = s.walBuf := by rw [pending, hidle]; rfl
  obtain ⟨haccounted, hordered, htoCome⟩ := h
  rw [hpending] at haccounted
  refine ⟨haccounted, fun x hx => ?_, fun x hx y hy => ?_⟩
  · rcases htoCome with hempty | hswapping | ⟨hflag, hlive | hresuming⟩
    · rw [hempty] at hx
      exact absurd hx List.not_mem_nil
    · rw [hidle] at hswapping
      cases hswapping
    · rw [rows_nextDrain hidle hflag hlive hrunning]
      exact List.mem_append_left _ (List.mem_reverse.mpr hx)
    · rw [hidle] at hresuming
      cases hresuming
  · exact nr_le_of_stored (List.pairwise_append.mp hordered).1 hx hy

/-- **As long as the steps are safe, no accepted bar is lost unnoticed** at any quiescent point. -/
theorem losesNoBar_of_safe (walBufferSize : ℤ) (es : List WalEvent)
    (hsafe : Along step Safe (new walBufferSize) es) :
    Along step (fun s e => (step s e).1.Quiescent → (step s e).1.LosesNoBar) (new walBufferSize)
      es := by
  refine along_of_invariant (fun s e hinv hse => ?_) es (inv_new walBufferSize) hsafe
  have hnext := inv_step hinv e hse
  exact ⟨hnext.losesNoBar, hnext⟩

/-- A bar without trades. -/
def bar (sec : Int64) : Bar where
  tsSecMs := sec

/-- A suspension that is resumed with a bar in the buffer. -/
def suspension : List WalEvent :=
  [.probe (some true), .call (bar 1000), .enqueue, .resume true, .swap, .drain .written]

theorem losesNoBar_suspension :
    Along step (fun s e => (step s e).1.Quiescent → (step s e).1.LosesNoBar) (new 10000)
      suspension :=
  losesNoBar_of_safe 10000 suspension
    ⟨trivial, trivial, fun _ _ _ => .inr ⟨rfl, .inl rfl⟩,
      fun _ hok => absurd hok (by decide), trivial, fun hhow => absurd hhow (by decide), trivial⟩

/-- The consumer loads the flag before the table is resumed, and fills the buffer afterwards. -/
def lateEnqueue : List WalEvent :=
  [.probe (some true), .call (bar 1000), .resume true, .swap, .enqueue]

/-- The bar stays in the buffer, and no drain is to come. -/
theorem late_enqueue_is_left :
    (final step (new 10000) lateEnqueue).Quiescent ∧
      ¬ (final step (new 10000) lateEnqueue).LosesNoBar := by
  refine ⟨⟨rfl, rfl, rfl⟩, fun h => ?_⟩
  have hdrained := h.drained ⟨0, bar 1000⟩ (by decide)
  exact absurd hdrained (by decide)

end WalWriter

end MagnumOpus.Candle
