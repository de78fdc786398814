import Mathlib.Tactic.Linarith
import Mathlib.Tactic.Ring
import MagnumOpus.Lib.KeyedSum
import MagnumOpus.Candle.WalBuffer

/-! # The volume that the writer keeps

What is in the table and in the buffer of a `WalWriter`, by volume.

* **The table.** A row replaces the one that it finds under its key (`table`).
* **Losses.** `takesAway` lists the rows that a step replaces, drops or gives up.
* **One step.** `worked_step`: what the writer keeps changes by the row that it accepts and by what
  the step takes away. -/

namespace MagnumOpus.Candle

open EventMachine KeyedSum

/-- The sum of the volumes, with an absent one as nothing. -/
def Bar.volumeOrZero (b : Bar) : ℚ := b.volume.getD 0

/-- The row that a call is to write. -/
def Calling.bar : Calling → Bar
  | .enqueuing b => b
  | .writing b => b

namespace WalWriter

/-- The table: the last row written for each key. -/
def table (s : WalWriter) : Entries RowKey Bar :=
  s.rows.foldr (fun x table => table.insert x.bar.rowKey x.bar) ∅

/-- The row of the call that is being made. -/
def offered (s : WalWriter) : Option Bar := s.call.map Calling.bar

/-- The rows that a step takes away: replaced in the table, dropped from the buffer, or given up by
a drain. -/
def takesAway (s : WalWriter) (e : WalEvent) : List Bar :=
  if s.crashed then [] else
  match e, s.call, s.probe with
  | .enqueue, some (.enqueuing _), _ =>
      if s.walBufferSize ≤ s.walBuf.length then s.walBuf.head?.toList.map AcceptedBar.bar else []
  | .attempt .written, some (.writing b), _ => (s.table.lookup b.rowKey).toList
  | .drain .written, _, .draining (x :: _) => (s.table.lookup x.bar.rowKey).toList
  | .drain .ctxDone, _, .draining buf => if s.cancelled then buf.map AcceptedBar.bar else []
  | _, _, _ => []

/-- The volume of some bars. -/
def volume (bars : List Bar) : ℚ := (bars.map Bar.volumeOrZero).sum

/-- The volume that waits to be written. -/
def waitingVolume (s : WalWriter) : ℚ := volume (s.pending.map AcceptedBar.bar)

/-- The volume in the table and in the buffer. -/
def kept (s : WalWriter) : ℚ := total Bar.volumeOrZero s.table + s.waitingVolume

/-- The bars come from those that the writer had, or from the call. -/
def Inherits (s s' : WalWriter) : Prop :=
  ∀ x ∈ s'.rows ++ s'.pending, x ∈ s.rows ++ s.pending ∨ s.offered = some x.bar

/-- What a step that is no call can do. -/
inductive Worked (s : WalWriter) (e : WalEvent) : WalWriter → List Bool → Prop
  | quiet {s' : WalWriter} (hcall : s'.call = s.call) (hinherits : s.Inherits s')
      (hkept : s'.kept + volume (s.takesAway e) = s.kept) : Worked s e s' []
  | refused {s' : WalWriter} {b : Bar} (hoffered : s.offered = some b) (hcall : s'.call = none)
      (hinherits : s.Inherits s') (hkept : s'.kept + volume (s.takesAway e) = s.kept) :
      Worked s e s' [false]
  | accepted {s' : WalWriter} {b : Bar} (hoffered : s.offered = some b) (hcall : s'.call = none)
      (hinherits : s.Inherits s')
      (hkept : s'.kept + volume (s.takesAway e) = s.kept + b.volumeOrZero) : Worked s e s' [true]

variable {s s' : WalWriter} {e : WalEvent} {b : Bar}

@[simp] theorem volume_nil : volume [] = 0 := rfl

@[simp] theorem volume_cons (b : Bar) (bars : List Bar) :
    volume (b :: bars) = b.volumeOrZero + volume bars := rfl

@[simp] theorem volume_append (bars bars' : List Bar) :
    volume (bars ++ bars') = volume bars + volume bars' := by
  rw [volume, List.map_append, List.sum_append]
  rfl

theorem volume_toList (o : Option Bar) : volume o.toList = o.elim 0 Bar.volumeOrZero := by
  cases o with
  | none => rfl
  | some b => exact add_zero _

theorem volume_nonneg {bars : List Bar} (h : ∀ b ∈ bars, 0 ≤ b.volumeOrZero) : 0 ≤ volume bars :=
  List.sum_nonneg (List.forall_mem_map.mpr h)

theorem volume_eq_zero_iff {bars : List Bar} (h : ∀ b ∈ bars, 0 ≤ b.volumeOrZero) :
    volume bars = 0 ↔ ∀ b ∈ bars, b.volumeOrZero = 0 := by
  induction bars with
  | nil => simp
  | cons b bars ih =>
      have hbars : ∀ b ∈ bars, 0 ≤ b.volumeOrZero := fun x hx => h x (List.mem_cons_of_mem b hx)
      rw [volume_cons, add_eq_zero_iff_of_nonneg (h b List.mem_cons_self) (volume_nonneg hbars),
        ih hbars, List.forall_mem_cons]

theorem table_write (s : WalWriter) (x : AcceptedBar) :
    ({ s with rows := x :: s.rows } : WalWriter).table = s.table.insert x.bar.rowKey x.bar := rfl

theorem mem_rows_of_lookup {k : RowKey} {b : Bar} (h : b ∈ s.table.lookup k) :
    ∃ x ∈ s.rows, x.bar = b := by
  unfold table at h
  generalize s.rows = rows at h ⊢
  induction rows with
  | nil => exact absurd h (Option.not_mem_none _)
  | cons x rows ih =>
      rw [List.foldr_cons] at h
      by_cases hk : k = x.bar.rowKey
      · subst hk
        rw [AList.lookup_insert] at h
        exact ⟨x, List.mem_cons_self, Option.some.inj h⟩
      · rw [AList.lookup_insert_ne hk] at h
        obtain ⟨y, hy, hyb⟩ := ih h
        exact ⟨y, List.mem_cons_of_mem x hy, hyb⟩

/-- What is taken away has been written or was waiting. -/
theorem mem_of_takesAway (h : b ∈ s.takesAway e) : ∃ x ∈ s.rows ++ s.pending, x.bar = b := by
  have hstored : ∀ {k : RowKey}, b ∈ (s.table.lookup k).toList →
      ∃ x ∈ s.rows ++ s.pending, x.bar = b := by
    intro k hk
    obtain ⟨x, hx, hxb⟩ := mem_rows_of_lookup (Option.mem_toList.mp hk)
    exact ⟨x, List.mem_append_left _ hx, hxb⟩
  unfold takesAway at h
  split at h
  · exact absurd h List.not_mem_nil
  split at h
  · split at h
    · obtain ⟨x, hx, rfl⟩ := List.mem_map.mp h
      have hbuf : x ∈ s.walBuf := List.mem_of_mem_head? (Option.mem_toList.mp hx)
      exact ⟨x, List.mem_append_right _ (List.mem_append_right _ hbuf), rfl⟩
    · exact absurd h List.not_mem_nil
  · exact hstored h
  · exact hstored h
  next hprobe =>
    split at h
    · obtain ⟨x, hx, rfl⟩ := List.mem_map.mp h
      have hbuf : x ∈ s.probe.buf := by rwa [hprobe]
      exact ⟨x, List.mem_append_right _ (List.mem_append_left _ hbuf), rfl⟩
    · exact absurd h List.not_mem_nil
  · exact absurd h List.not_mem_nil

/-! ### A step of the writer -/

theorem worked_same (hcall : s'.call = s.call) (hrows : s'.rows = s.rows)
    (hpending : s'.pending = s.pending) (htaken : s.takesAway e = []) : Worked s e s' [] := by
  refine .quiet hcall (fun x hx => .inl ?_) ?_
  · rwa [← hrows, ← hpending]
  · rw [htaken, volume_nil, add_zero, kept, kept, waitingVolume, waitingVolume, table, table, hrows,
      hpending]

theorem total_table_write (s : WalWriter) (x : AcceptedBar) :
    total Bar.volumeOrZero ({ s with rows := x :: s.rows } : WalWriter).table +
        volume (s.table.lookup x.bar.rowKey).toList =
      x.bar.volumeOrZero + total Bar.volumeOrZero s.table := by
  rw [volume_toList, table_write, total_insert_add]

theorem worked_enqueueWAL (hrun : s.crashed = false) (hcall : s.call = some (.enqueuing b)) :
    Worked s .enqueue (s.enqueueWAL b).1 (s.enqueueWAL b).2 := by
  have hoffered : s.offered = some b := by rw [offered, hcall]; rfl
  unfold enqueueWAL
  split
  next hfull =>
    cases hbuf : s.walBuf with
    | nil =>
        exact worked_same rfl rfl (by rw [pending, pending, hbuf])
          (by simp [takesAway, hrun, hcall, hbuf])
    | cons oldest rest =>
        have htaken : s.takesAway .enqueue = [oldest.bar] := by
          rw [hbuf] at hfull
          simp only [takesAway, hrun, hcall, hbuf]
          rw [if_neg Bool.false_ne_true, if_pos hfull]
          rfl
        refine .accepted hoffered rfl ?_ ?_
        · intro x hx
          simp only [pending, hbuf, List.mem_append, List.mem_cons, List.not_mem_nil,
            or_false] at hx ⊢
          rcases hx with hx | hx | hx | rfl
          · exact .inl (.inl hx)
          · exact .inl (.inr (.inl hx))
          · exact .inl (.inr (.inr (.inr hx)))
          · exact .inr hoffered
        · rw [htaken]
          simp only [kept, waitingVolume, pending, hbuf, table, List.map_append, List.map_cons,
            List.map_nil, volume_append, volume_cons, volume_nil]
          ring
  next hroom =>
    have htaken : s.takesAway .enqueue = [] := by simp [takesAway, hrun, hcall, hroom]
    refine .accepted hoffered rfl ?_ ?_
    · intro x hx
      simp only [pending, List.mem_append, List.mem_cons, List.not_mem_nil, or_false] at hx ⊢
      rcases hx with hx | hx | hx | rfl
      · exact .inl (.inl hx)
      · exact .inl (.inr (.inl hx))
      · exact .inl (.inr (.inr hx))
      · exact .inr hoffered
    · rw [htaken]
      simp only [kept, waitingVolume, pending, table, List.map_append, List.map_cons,
        List.map_nil, volume_append, volume_cons, volume_nil]
      ring

theorem worked_writeBar (hrun : s.crashed = false) (hcall : s.call = some (.writing b))
    (how : WriteEnd) : Worked s (.attempt how) (s.writeBar b how).1 (s.writeBar b how).2 := by
  have hoffered : s.offered = some b := by rw [offered, hcall]; rfl
  cases how with
  | failed => exact worked_same rfl rfl rfl (by simp [takesAway, hrun])
  | ctxDone =>
      have htaken : s.takesAway (.attempt .ctxDone) = [] := by simp [takesAway, hrun]
      refine .refused hoffered rfl (fun x hx => .inl hx) ?_
      rw [htaken, volume_nil, add_zero]
      rfl
  | written =>
      have htaken : s.takesAway (.attempt .written) = (s.table.lookup b.rowKey).toList := by
        simp [takesAway, hrun, hcall]
      refine .accepted hoffered rfl ?_ ?_
      · intro x hx
        rcases List.mem_append.mp hx with hx | hx
        · rcases List.mem_cons.mp hx with rfl | hx
          · exact .inr hoffered
          · exact .inl (List.mem_append_left _ hx)
        · exact .inl (List.mem_append_right _ hx)
      · have htotal := total_table_write s ⟨s.accepted, b⟩
        rw [htaken]
        show total _ ({ s with rows := ⟨s.accepted, b⟩ :: s.rows } : WalWriter).table +
          s.waitingVolume + _ = total _ s.table + s.waitingVolume + _
        linarith

theorem worked_drainWAL (hrun : s.crashed = false) {x : AcceptedBar} {rest : List AcceptedBar}
    (hdraining : s.probe = .draining (x :: rest)) (how : WriteEnd) :
    Worked s (.drain how) (s.drainWAL x rest how) [] := by
  have hpending : s.pending = x :: (rest ++ s.walBuf) := by rw [pending, hdraining]; rfl
  cases how with
  | failed => exact worked_same rfl rfl rfl (by simp [takesAway, hrun])
  | ctxDone =>
      by_cases hcancelled : s.cancelled = true
      · have htaken : s.takesAway (.drain .ctxDone) = (x :: rest).map AcceptedBar.bar := by
          simp [takesAway, hrun, hdraining, hcancelled]
        rw [drainWAL, if_pos hcancelled]
        refine .quiet rfl ?_ ?_
        · intro y hy
          refine .inl (List.mem_append.mpr ((List.mem_append.mp hy).imp_right fun hy => ?_))
          rw [hpending]
          exact List.mem_cons_of_mem x (List.mem_append_right rest hy)
        · show total _ s.table + volume (s.walBuf.map AcceptedBar.bar) + _ = _
          rw [htaken, kept, waitingVolume, hpending]
          simp only [List.map_cons, List.map_append, volume_cons, volume_append]
          ring
      · rw [drainWAL, if_neg hcancelled]
        exact worked_same rfl rfl rfl (by simp [takesAway, hrun, hdraining, hcancelled])
  | written =>
      have htaken : s.takesAway (.drain .written) = (s.table.lookup x.bar.rowKey).toList := by
        simp [takesAway, hrun, hdraining]
      have hrest : ({ s with rows := x :: s.rows }.drainOn rest).pending = rest ++ s.walBuf := by
        rw [pending, buf_drainOn]
        rfl
      refine .quiet rfl ?_ ?_
      · intro y hy
        rw [drainWAL, hrest] at hy
        rw [hpending]
        simp only [drainOn, List.mem_append, List.mem_cons] at hy ⊢
        tauto
      · have htotal := total_table_write s x
        rw [htaken, drainWAL, kept, waitingVolume, hrest, kept, waitingVolume, hpending]
        simp only [List.map_cons, List.map_append, volume_cons, volume_append]
        show total _ ({ s with rows := x :: s.rows } : WalWriter).table + _ + _ = _
        linarith

/-- **What a step of the writer does.** -/
theorem worked_step (hrun : s.crashed = false) (hcall : ∀ b, e ≠ .call b) :
    Worked s e (step s e).1 (step s e).2 := by
  simp only [step, hrun, Bool.false_eq_true, if_false]
  cases e with
  | call b => exact absurd rfl (hcall b)
  | enqueue =>
      dsimp only
      split
      next b hcall => exact worked_enqueueWAL hrun hcall
      next hcall =>
        refine worked_same rfl rfl rfl ?_
        simp only [takesAway, hrun, Bool.false_eq_true, if_false]
        split <;> simp_all
  | attempt how =>
      dsimp only
      split
      next b hcall => exact worked_writeBar hrun hcall how
      next hcall =>
        refine worked_same rfl rfl rfl ?_
        simp only [takesAway, hrun, Bool.false_eq_true, if_false]
        split <;> simp_all
  | probe suspended =>
      dsimp only
      split
      next hidle =>
        have hbuf : ∀ q : Probe, q.buf = [] → Probe.buf s.probe = q.buf := by
          intro q hq
          rw [hidle.1, hq]
          rfl
        refine worked_same ?_ ?_ ?_ (by simp [takesAway, hrun])
        all_goals
          unfold probeAndResume
          split
          · rfl
          · simp [pending, Probe.buf, hidle.1]
          · split <;> simp [pending, Probe.buf, hidle.1]
      next => exact worked_same rfl rfl rfl (by simp [takesAway, hrun])
  | resume ok =>
      dsimp only
      split
      next hresuming =>
        refine worked_same ?_ ?_ ?_ (by simp [takesAway, hrun])
        all_goals
          unfold resumeWAL
          split <;> simp [pending, Probe.buf, hresuming]
      next => exact worked_same rfl rfl rfl (by simp [takesAway, hrun])
  | swap =>
      dsimp only
      split
      next hswapping =>
        refine worked_same rfl rfl ?_ (by simp [takesAway, hrun])
        rw [pending, buf_drainOn, pending, hswapping]
        exact List.append_nil s.walBuf
      next => exact worked_same rfl rfl rfl (by simp [takesAway, hrun])
  | drain how =>
      dsimp only
      split
      next x rest hdraining => exact worked_drainWAL hrun hdraining how
      next hdraining =>
        refine worked_same rfl rfl rfl ?_
        simp only [takesAway, hrun, Bool.false_eq_true, if_false]
        split
        case h_4 buf _ _ =>
          cases buf with
          | nil => simp
          | cons x rest => simp_all
        all_goals simp_all
  | cancel => exact worked_same rfl rfl rfl (by simp [takesAway, hrun])

end WalWriter

end MagnumOpus.Candle
