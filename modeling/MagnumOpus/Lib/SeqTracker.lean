import Mathlib.Data.List.Basic

/-! # Numbered items and a tracker

A source numbers its items: each covers a range `[first, last]`, and every range starts where the
one before it ended (`Contiguous`).  A receiver keeps the last number it has seen (`next`) and
raises an alarm when an item does not start right after it (`Alarm`).  Items may be *blank*: they
cover their range but the receiver does not see them.  A tracker at `0` has seen nothing and raises
no alarm.

* **No alarm.** `quiet_iff_steady`: a contiguous run of items raises no alarm exactly when the first
  visible one starts right after the tracker (or the tracker is at `0`) and, from there on, no
  visible item comes after a blank one.
* **One block missing.** `exact_iff_covered`: when a block of items is left out, the alarm is raised
  at the first item after it and nowhere else, exactly under the conditions of `Covered`. -/

namespace MagnumOpus.SeqTracker

/-- An item and the range of numbers it covers. -/
structure Item where
  first : ℕ
  last : ℕ
  blank : Bool

/-- Every item starts where the one before it ended, the first one at `a`. -/
def Contiguous : ℕ → List Item → Prop
  | _, [] => True
  | a, i :: is => i.first = a ∧ i.first ≤ i.last ∧ Contiguous (i.last + 1) is

/-- The number after the last item. -/
def stop : ℕ → List Item → ℕ
  | a, [] => a
  | _, i :: is => stop (i.last + 1) is

/-- The tracker after an item. -/
def next (n : ℕ) (i : Item) : ℕ := if i.blank then n else i.last

/-- The tracker after a run of items. -/
def tracked (n : ℕ) (is : List Item) : ℕ := is.foldl next n

/-- The item does not follow what the tracker has seen. -/
def Alarm (n : ℕ) (i : Item) : Prop := i.blank = false ∧ 0 < n ∧ i.first ≠ n + 1

/-- No item of the run raises an alarm. -/
def Quiet : ℕ → List Item → Prop
  | _, [] => True
  | n, i :: is => ¬ Alarm n i ∧ Quiet (next n i) is

/-- After a blank item there are only blank ones. -/
def BlanksLast (is : List Item) : Prop := is.Pairwise fun i j => i.blank = true → j.blank = true

/-- The first visible item follows the tracker, and no visible item follows a blank one later. -/
def Steady (n : ℕ) (is : List Item) : Prop :=
  (∀ i ∈ (is.dropWhile Item.blank).head?, n = 0 ∨ i.first = n + 1) ∧
    BlanksLast (is.dropWhile Item.blank)

theorem contiguous_append {a : ℕ} {is js : List Item} :
    Contiguous a (is ++ js) ↔ Contiguous a is ∧ Contiguous (stop a is) js := by
  induction is generalizing a with
  | nil => simp [Contiguous, stop]
  | cons i is ih => simp only [List.cons_append, Contiguous, stop, ih, and_assoc]

theorem le_stop : ∀ {a : ℕ} {is : List Item}, Contiguous a is → a ≤ stop a is
  | _, [], _ => Nat.le_refl _
  | a, i :: is, h => by
      obtain ⟨hfirst, hle, hrest⟩ := h
      have := le_stop hrest
      simp only [stop]
      omega

theorem lt_stop {a : ℕ} {is : List Item} (h : Contiguous a is) (hne : is ≠ []) :
    a < stop a is := by
  cases is with
  | nil => exact absurd rfl hne
  | cons i is =>
      obtain ⟨hfirst, hle, hrest⟩ := h
      have := le_stop hrest
      simp only [stop]
      omega

/-- Items cover some numbers unless there are none. -/
theorem stop_ne_iff {a : ℕ} {is : List Item} (h : Contiguous a is) : stop a is ≠ a ↔ is ≠ [] := by
  constructor
  · rintro hstop rfl
    exact hstop rfl
  · intro hne
    have hlt := lt_stop h hne
    omega

theorem next_of_blank {n : ℕ} {i : Item} (h : i.blank = true) : next n i = n := by
  rw [next, if_pos h]

theorem next_of_visible {n : ℕ} {i : Item} (h : i.blank = false) : next n i = i.last := by
  rw [next, h, if_neg Bool.false_ne_true]

theorem not_alarm_of_blank {n : ℕ} {i : Item} (h : i.blank = true) : ¬ Alarm n i := by
  intro ha
  rw [ha.1] at h
  cases h

theorem quiet_append {n : ℕ} {is js : List Item} :
    Quiet n (is ++ js) ↔ Quiet n is ∧ Quiet (tracked n is) js := by
  induction is generalizing n with
  | nil => simp [Quiet, tracked]
  | cons i is ih => simp only [List.cons_append, Quiet, ih, tracked, List.foldl_cons, and_assoc]

/-- A tracker that is behind the items stays quiet only when it sees none of them. -/
theorem quiet_iff_of_behind {n : ℕ} (hn : 0 < n) : ∀ {a : ℕ} {is : List Item},
    Contiguous a is → n + 1 < a → (Quiet n is ↔ ∀ i ∈ is, i.blank = true)
  | _, [], _, _ => by simp [Quiet]
  | a, i :: is, h, ha => by
      obtain ⟨hfirst, hle, hrest⟩ := h
      cases hb : i.blank with
      | true =>
          have ih := quiet_iff_of_behind hn hrest (by omega)
          simp only [Quiet, next_of_blank hb, not_alarm_of_blank hb, not_false_eq_true, true_and,
            List.forall_mem_cons, hb, ih]
      | false =>
          have halarm : Alarm n i := ⟨hb, hn, by omega⟩
          simp [Quiet, halarm, hb]

theorem blanksLast_of_forall {is : List Item} (h : ∀ i ∈ is, i.blank = true) : BlanksLast is :=
  List.pairwise_of_forall_mem_list fun _ _ j hj _ => h j hj

theorem blanksLast_cons_of_visible {i : Item} {is : List Item} (h : i.blank = false) :
    BlanksLast (i :: is) ↔ BlanksLast is := by
  simp [BlanksLast, List.pairwise_cons, h]

/-- A tracker that is up to date stays quiet as long as no visible item follows a blank one. -/
theorem quiet_iff_of_upToDate : ∀ {n : ℕ} {is : List Item}, 0 < n → Contiguous (n + 1) is →
    (Quiet n is ↔ BlanksLast is)
  | _, [], _, _ => by simp [Quiet, BlanksLast]
  | n, i :: is, hn, h => by
      obtain ⟨hfirst, hle, hrest⟩ := h
      cases hb : i.blank with
      | true =>
          have hbehind := quiet_iff_of_behind hn hrest (by omega)
          have hall : BlanksLast (i :: is) ↔ ∀ j ∈ is, j.blank = true := by
            rw [BlanksLast, List.pairwise_cons]
            constructor
            · intro hp j hj
              exact hp.1 j hj hb
            · intro hj
              exact ⟨fun j hmem _ => hj j hmem, blanksLast_of_forall hj⟩
          simp only [Quiet, next_of_blank hb, not_alarm_of_blank hb, not_false_eq_true, true_and,
            hbehind, hall]
      | false =>
          have hquiet : ¬ Alarm n i := fun ha => ha.2.2 hfirst
          have ih := quiet_iff_of_upToDate (n := i.last) (by omega) hrest
          simp only [Quiet, next_of_visible hb, hquiet, not_false_eq_true, true_and, ih,
            blanksLast_cons_of_visible hb]

/-- **A contiguous run raises no alarm exactly when it is steady.** -/
theorem quiet_iff_steady : ∀ {n a : ℕ} {is : List Item}, 0 < a → Contiguous a is →
    (Quiet n is ↔ Steady n is)
  | _, _, [], _, _ => by simp [Quiet, Steady, BlanksLast]
  | n, a, i :: is, ha, h => by
      obtain ⟨hfirst, hle, hrest⟩ := h
      cases hb : i.blank with
      | true =>
          have ih := quiet_iff_steady (n := n) (by omega) hrest
          simp only [Quiet, next_of_blank hb, not_alarm_of_blank hb, not_false_eq_true, true_and,
            ih, Steady, List.dropWhile_cons_of_pos hb]
      | false =>
          have hup := quiet_iff_of_upToDate (by omega) hrest
          have hfirst_iff : ¬ Alarm n i ↔ n = 0 ∨ i.first = n + 1 := by
            simp only [Alarm, hb, true_and, not_and_or, Nat.not_lt, Nat.le_zero,
              Decidable.not_not, ne_eq]
          have hdrop : (i :: is).dropWhile Item.blank = i :: is :=
            List.dropWhile_cons_of_neg (by simp [hb])
          simp only [Quiet, next_of_visible hb, hfirst_iff, hup, Steady, hdrop, List.head?_cons,
            Option.mem_some_iff, forall_eq', blanksLast_cons_of_visible hb]

/-! ### A missing block -/

/-- When `gap` is left out of `pre ++ gap ++ post`, the alarm is raised at the first item after it
and nowhere else; when it is empty, there is no alarm. -/
def Exact (n : ℕ) (pre gap post : List Item) : Prop :=
  Quiet n pre ∧
    match post with
    | [] => True
    | i :: is =>
        if gap = [] then Quiet (tracked n pre) (i :: is)
        else Alarm (tracked n pre) i ∧ Quiet (next (tracked n pre) i) is

/-- What it takes for a missing block to be noticed exactly. -/
def Covered (n : ℕ) (pre gap post : List Item) : Prop :=
  if gap = [] then Steady n (pre ++ post)
  else
    Steady n pre ∧
      match post with
      | [] => True
      | i :: is =>
          i.blank = false ∧ ((∃ j ∈ pre, j.blank = false) ∨ (0 < n ∧ i.first ≠ n + 1)) ∧
            BlanksLast is

/-- The tracker has seen one of the items, or none. -/
theorem tracked_cases : ∀ {n a : ℕ} {is : List Item}, Contiguous a is →
    (∃ i ∈ is, i.blank = false) ∧ a ≤ tracked n is ∧ tracked n is < stop a is ∨
    (∀ i ∈ is, i.blank = true) ∧ tracked n is = n
  | _, _, [], _ => by simp [tracked]
  | n, a, i :: is, h => by
      obtain ⟨hfirst, hle, hrest⟩ := h
      have hstop := le_stop hrest
      simp only [tracked, List.foldl_cons, stop, List.exists_mem_cons_iff, List.forall_mem_cons]
      rcases tracked_cases (n := next n i) hrest with ⟨hex, hlo, hhi⟩ | ⟨hall, heq⟩
      · left
        simp only [tracked] at hlo hhi
        exact ⟨Or.inr hex, by omega, hhi⟩
      · simp only [tracked] at heq
        cases hb : i.blank with
        | false =>
            left
            rw [heq, next_of_visible hb]
            exact ⟨Or.inl rfl, by omega, by omega⟩
        | true =>
            right
            rw [heq, next_of_blank hb]
            exact ⟨⟨rfl, hall⟩, rfl⟩

/-- **A missing block is noticed exactly when it is covered.** -/
theorem exact_iff_covered {n a : ℕ} {pre gap post : List Item} (ha : 0 < a)
    (h : Contiguous a (pre ++ gap ++ post)) :
    Exact n pre gap post ↔ Covered n pre gap post := by
  obtain ⟨hpg, hpost⟩ := contiguous_append.mp h
  obtain ⟨hpre, hgap⟩ := contiguous_append.mp hpg
  have hquiet_pre := quiet_iff_steady (n := n) ha hpre
  by_cases hg : gap = []
  · subst hg
    rw [List.append_nil] at h
    unfold Covered Exact
    rw [if_pos rfl, ← quiet_iff_steady ha h, quiet_append]
    cases post with
    | nil => simp [Quiet]
    | cons i is => simp
  · have hstop : stop a pre < stop a (pre ++ gap) := by
      have hlt := lt_stop hgap hg
      have hassoc : stop a (pre ++ gap) = stop (stop a pre) gap := by
        clear * -
        induction pre generalizing a with
        | nil => rfl
        | cons i is ih => exact ih
      omega
    unfold Covered Exact
    rw [if_neg hg, hquiet_pre]
    refine and_congr_right fun _ => ?_
    cases post with
    | nil => exact Iff.rfl
    | cons i is =>
        simp only [hg, if_false]
        obtain ⟨hfirst, hle, hrest⟩ := hpost
        -- The tracker has seen an item before the block, or it is where it was.
        have htracked : i.blank = false →
            ((0 < tracked n pre ∧ i.first ≠ tracked n pre + 1) ↔
              ((∃ j ∈ pre, j.blank = false) ∨ (0 < n ∧ i.first ≠ n + 1))) := by
          intro _
          rcases tracked_cases (n := n) hpre with ⟨hex, hlo, hhi⟩ | ⟨hall, heq⟩
          · exact ⟨fun _ => Or.inl hex, fun _ => ⟨by omega, by omega⟩⟩
          · rw [heq]
            refine ⟨Or.inr, fun hor => hor.resolve_left ?_⟩
            rintro ⟨j, hj, hb⟩
            rw [hall j hj] at hb
            cases hb
        rw [Alarm, and_assoc]
        refine and_congr_right fun hb => and_congr (htracked hb) ?_
        rw [next_of_visible hb]
        exact quiet_iff_of_upToDate (by omega) hrest

end MagnumOpus.SeqTracker
