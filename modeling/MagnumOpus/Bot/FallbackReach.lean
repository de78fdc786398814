import MagnumOpus.Bot.RestFallback

/-! # What the fallback catches up with

The polls of a private feed ask for the fills from the time of the last one that was handed over.

* **In reach.** As long as the session brings no fill that is younger than a missing one, the
  missing orders are no older than the last time (`InReach`), whatever becomes of the polls.  This
  is what the fills of a poll are sorted for.
* **Caught up.** Then every poll that runs to its end brings all orders that were filled before it
  was answered (`caught_up`). -/

namespace MagnumOpus.Bot
namespace PrivateFeed

open EventMachine

/-- A feed beside its exchange: the fills of the orders that are filled, and its clock. -/
structure World where
  feed : Feed
  filled : List OrderFilled
  clock : ℤ

/-- An order is filled or partly filled, or the feed goes on. -/
inductive WorldEvent
  | filled (fill : OrderFilled)
  | partly (ts : ℤ)
  | feed (e : Event)

def worldStep (timeoutS : ℚ) : Step World WorldEvent Note := fun w e =>
  match e with
  | .filled f => ({ w with filled := w.filled ++ [f], clock := f.tsExchange }, [])
  | .partly ts => ({ w with clock := max w.clock ts }, [])
  | .feed e => ({ w with feed := (step timeoutS w.feed e).1 }, (step timeoutS w.feed e).2)

/-- A filled order that the feed has not seen. -/
def World.Missing (w : World) (f : OrderFilled) : Prop :=
  f ∈ w.filled ∧ f.orderId ∉ w.feed.seenFillIds

/-- The exchange's clock runs on, it reports what has happened, and its answers are complete; the
bot's clock is at most half an hour ahead. -/
def Truthful (w : World) : WorldEvent → Prop
  | .filled f => w.clock ≤ f.tsExchange
  | .feed (.message _ fills) => ∀ f ∈ fills, f.tsExchange ≤ w.clock
  | .feed (.poll nowMs) => nowMs - 1800000 ≤ w.clock
  | .feed (.answer fills) => (∀ f ∈ fills, f.tsExchange ≤ w.clock) ∧
      ∀ since, w.feed.poller = .asking since → ∀ f ∈ w.filled, since ≤ f.tsExchange → f ∈ fills
  | _ => True

/-- The session does not overtake a missing order, and none is missing for half an hour before the
first fill. -/
def InOrder (w : World) : WorldEvent → Prop
  | .feed .returned => ∀ g ∈ w.feed.received, 0 < g.tsExchange →
      ∀ f, w.Missing f → g.tsExchange ≤ f.tsExchange
  | .feed (.poll nowMs) => w.feed.lastFillTsMs ≤ 0 →
      ∀ f, w.Missing f → nowMs - 1800000 ≤ f.tsExchange
  | _ => True

/-- The missing orders are in reach. -/
structure InReach (w : World) : Prop where
  last_le_clock : w.feed.lastFillTsMs ≤ w.clock
  receiver_le_clock : ∀ g ∈ w.feed.receiver.getD [], g.tsExchange ≤ w.clock
  last_le : ∀ f, w.Missing f → w.feed.lastFillTsMs ≤ f.tsExchange
  asking : ∀ since, w.feed.poller = .asking since →
    since ≤ w.clock ∧ ∀ f, w.Missing f → since ≤ f.tsExchange
  working : ∀ work, w.feed.poller = .working work →
    work.Pairwise (fun f g => f.tsExchange ≤ g.tsExchange) ∧ (∀ g ∈ work, g.tsExchange ≤ w.clock) ∧
      ∀ f, w.Missing f → f ∈ work.tail ∨ ∀ g ∈ work, g.tsExchange ≤ f.tsExchange

section

variable {s : Feed} {fills : List OrderFilled} {w : World}

theorem mem_tail_takeUp {f : OrderFilled} (hf : f ∈ fills)
    (hunseen : f.orderId ∉ (s.takeUp fills).1.seenFillIds) : f ∈ (s.takeUp fills).2.1.tail := by
  rw [seenFillIds_takeUp, List.mem_append, not_or] at hunseen
  have hwork : f ∈ (s.takeUp fills).2.1 := by
    rw [← List.takeWhile_append_dropWhile (p := (·.orderId ∈ s.seenFillIds)) (l := fills),
      List.mem_append] at hf
    rcases hf with hf | hf
    · exact absurd (by simpa using List.mem_takeWhile_imp hf) hunseen.2
    · exact hf
  cases hcases : (s.takeUp fills).2.1 with
  | nil =>
      rw [hcases] at hwork
      cases hwork
  | cons g rest =>
      rw [hcases] at hwork hunseen
      rcases List.mem_cons.mp hwork with rfl | hrest
      · exact absurd (by simp) hunseen.1
      · exact hrest

theorem World.Missing.of_seen {f : OrderFilled} {s' : Feed}
    (hseen : w.feed.seenFillIds ⊆ s'.seenFillIds) (h : World.Missing { w with feed := s' } f) :
    w.Missing f :=
  ⟨h.1, fun hmem => h.2 (hseen hmem)⟩

theorem seen_subset_takeUp : s.seenFillIds ⊆ (s.takeUp fills).1.seenFillIds := by
  rw [seenFillIds_takeUp]
  exact List.subset_append_right _ _

theorem InReach.receive (h : InReach w) (hfills : ∀ g ∈ fills, g.tsExchange ≤ w.clock) :
    InReach { w with feed := (w.feed.receive fills).1 } := by
  have hmissing : ∀ f, World.Missing { w with feed := (w.feed.receive fills).1 } f → w.Missing f :=
    fun f => World.Missing.of_seen seen_subset_takeUp
  exact {
    last_le_clock := h.last_le_clock
    receiver_le_clock := fun g hg => hfills g (mem_of_mem_takeUp hg)
    last_le := fun f hf => h.last_le f (hmissing f hf)
    asking := fun since hasking =>
      ⟨(h.asking since hasking).1, fun f hf => (h.asking since hasking).2 f (hmissing f hf)⟩
    working := fun work hwork =>
      ⟨(h.working work hwork).1, (h.working work hwork).2.1, fun f hf =>
        (h.working work hwork).2.2 f (hmissing f hf)⟩ }

/-- The polling task takes up fills in their order that hold every missing one which is older than
some of them. -/
theorem InReach.catchUp (h : InReach w)
    (hsorted : fills.Pairwise fun f g => f.tsExchange ≤ g.tsExchange)
    (hclock : ∀ g ∈ fills, g.tsExchange ≤ w.clock)
    (hhold : ∀ f, w.Missing f → f ∈ fills ∨ ∀ g ∈ fills, g.tsExchange ≤ f.tsExchange) :
    InReach { w with feed := (w.feed.catchUp fills).1 } := by
  have hmissing : ∀ f, World.Missing { w with feed := (w.feed.catchUp fills).1 } f → w.Missing f :=
    fun f => World.Missing.of_seen seen_subset_takeUp
  refine ⟨h.last_le_clock, h.receiver_le_clock, fun f hf => h.last_le f (hmissing f hf),
    fun since hasking => Poller.noConfusion hasking, fun work hwork => ?_⟩
  obtain rfl := Poller.working.inj hwork
  refine ⟨hsorted.sublist (List.dropWhile_suffix _).sublist, fun g hg =>
    hclock g (mem_of_mem_takeUp hg), fun f hf => ?_⟩
  rcases hhold f (hmissing f hf) with hmem | hle
  · exact .inl (mem_tail_takeUp hmem hf.2)
  · exact .inr fun g hg => hle g (mem_of_mem_takeUp hg)

theorem InReach.withoutPoll (h : InReach w) {s' : Feed}
    (hseen : s'.seenFillIds = w.feed.seenFillIds) (hlast : s'.lastFillTsMs = w.feed.lastFillTsMs)
    (hreceiver : s'.receiver = w.feed.receiver)
    (hpoller : s'.poller = .ended ∨ s'.poller = .working []) : InReach { w with feed := s' } where
  last_le_clock := hlast.symm ▸ h.last_le_clock
  receiver_le_clock := hreceiver.symm ▸ h.receiver_le_clock
  last_le := fun f hf => hlast.symm ▸ h.last_le f (hf.of_seen fun _ hx => hseen.symm ▸ hx)
  asking := fun since hasking => by
    rcases hpoller with hpoller | hpoller <;> exact Poller.noConfusion (hpoller.symm.trans hasking)
  working := fun work hwork => by
    rcases hpoller with hpoller | hpoller
    · exact Poller.noConfusion (hpoller.symm.trans hwork)
    · obtain rfl := Poller.working.inj (hpoller.symm.trans hwork)
      exact ⟨List.Pairwise.nil, fun _ hg => absurd hg List.not_mem_nil,
        fun _ _ => .inr fun _ hg => absurd hg List.not_mem_nil⟩

theorem inReach_filled (h : InReach w) {f : OrderFilled} (hf : w.clock ≤ f.tsExchange) :
    InReach { w with filled := w.filled ++ [f], clock := f.tsExchange } := by
  have hmissing : ∀ g, World.Missing { w with filled := w.filled ++ [f], clock := f.tsExchange } g →
      w.Missing g ∨ g = f := by
    rintro g ⟨hmem, hunseen⟩
    rcases List.mem_append.mp hmem with hmem | hmem
    · exact .inl ⟨hmem, hunseen⟩
    · exact .inr (List.mem_singleton.mp hmem)
  refine ⟨h.last_le_clock.trans hf, fun g hg => (h.receiver_le_clock g hg).trans hf, fun g hg => ?_,
    fun since hasking => ⟨(h.asking since hasking).1.trans hf, fun g hg => ?_⟩,
    fun work hwork => ⟨(h.working work hwork).1,
      fun g hg => ((h.working work hwork).2.1 g hg).trans hf, fun g hg => ?_⟩⟩
  · rcases hmissing g hg with hg | rfl
    · exact h.last_le g hg
    · exact h.last_le_clock.trans hf
  · rcases hmissing g hg with hg | rfl
    · exact (h.asking since hasking).2 g hg
    · exact (h.asking since hasking).1.trans hf
  · rcases hmissing g hg with hg | rfl
    · exact (h.working work hwork).2.2 g hg
    · exact .inr fun x hx => ((h.working work hwork).2.1 x hx).trans hf

theorem inReach_partly (h : InReach w) (ts : ℤ) :
    InReach { w with clock := max w.clock ts } where
  last_le_clock := le_max_of_le_left h.last_le_clock
  receiver_le_clock := fun g hg => le_max_of_le_left (h.receiver_le_clock g hg)
  last_le := h.last_le
  asking := fun since hasking =>
    ⟨le_max_of_le_left (h.asking since hasking).1, (h.asking since hasking).2⟩
  working := fun work hwork => ⟨(h.working work hwork).1,
    fun g hg => le_max_of_le_left ((h.working work hwork).2.1 g hg), (h.working work hwork).2.2⟩

theorem inReach_returned (timeoutS : ℚ) (h : InReach w) (hok : InOrder w (.feed .returned)) :
    InReach { w with feed := (step timeoutS w.feed .returned).1 } := by
  unfold step
  dsimp only
  split
  · next f rest hbusy =>
      have hclock := h.receiver_le_clock
      rw [hbusy, Option.getD_some] at hclock
      have hf : f ∈ w.feed.received := by
        rw [Feed.received, hbusy]
        exact List.mem_cons_self
      have hlast : InReach { w with feed.lastFillTsMs :=
          if 0 < f.tsExchange then f.tsExchange else w.feed.lastFillTsMs } := by
        refine { h with last_le_clock := ?_, last_le := fun g hg => ?_ }
        · dsimp only
          split
          · exact hclock f List.mem_cons_self
          · exact h.last_le_clock
        · dsimp only
          split
          · next hpos => exact hok f hf hpos g hg
          · exact h.last_le g hg
      exact hlast.receive fun g hg => hclock g (List.mem_cons_of_mem f hg)
  · exact h

/-- `on_fill` returns to the polling task.  The missing orders are no older than the fill, since
they are behind it in the poll or came after the answer. -/
theorem inReach_pollReturned (timeoutS : ℚ) (h : InReach w) :
    InReach { w with feed := (step timeoutS w.feed .pollReturned).1 } := by
  unfold step
  dsimp only
  split
  · next f rest hbusy =>
      obtain ⟨hsorted, hclock, hhold⟩ := h.working _ hbusy
      obtain ⟨hfirst, hrest⟩ := List.pairwise_cons.mp hsorted
      have hle : ∀ g, w.Missing g → f.tsExchange ≤ g.tsExchange := by
        intro g hg
        rcases hhold g hg with hmem | hall
        · exact hfirst g hmem
        · exact hall f List.mem_cons_self
      have hlast : InReach { w with feed.lastFillTsMs := max w.feed.lastFillTsMs f.tsExchange } :=
        { h with
          last_le_clock := max_le h.last_le_clock (hclock f List.mem_cons_self)
          last_le := fun g hg => max_le (h.last_le g hg) (hle g hg) }
      refine hlast.catchUp hrest (fun g hg => hclock g (List.mem_cons_of_mem f hg)) fun g hg => ?_
      rcases hhold g hg with hmem | hall
      · exact .inl hmem
      · exact .inr fun x hx => hall x (List.mem_cons_of_mem f hx)
  · exact h

theorem inReach_answer (timeoutS : ℚ) (h : InReach w) {fills : List OrderFilled}
    (htrue : Truthful w (.feed (.answer fills))) :
    InReach { w with feed := (step timeoutS w.feed (.answer fills)).1 } := by
  unfold step
  dsimp only
  split
  · next since hasking =>
      obtain ⟨hclock, hcomplete⟩ := htrue
      refine h.catchUp (List.pairwise_insertionSort _ _)
        (fun g hg => hclock g ((List.mem_insertionSort _).mp hg)) fun g hg => .inl ?_
      exact (List.mem_insertionSort _).mpr
        (hcomplete since hasking g hg.1 ((h.asking since hasking).2 g hg))
  · exact h

theorem inReach_poll (timeoutS : ℚ) (h : InReach w) {nowMs : ℤ}
    (htrue : Truthful w (.feed (.poll nowMs))) (hok : InOrder w (.feed (.poll nowMs))) :
    InReach { w with feed := (step timeoutS w.feed (.poll nowMs)).1 } := by
  unfold step
  dsimp only
  split
  · split
    · refine { h with asking := fun since hasking => ?_, working := fun _ hwork => ?_ }
      · obtain rfl := Poller.asking.inj hasking
        rw [Feed.sinceMs]
        split
        · exact ⟨h.last_le_clock, h.last_le⟩
        · next hzero => exact ⟨htrue, hok (not_lt.mp hzero)⟩
      · exact Poller.noConfusion hwork
    · exact h.withoutPoll rfl rfl rfl (.inl rfl)
  · exact h

theorem inReach_step (timeoutS : ℚ) (h : InReach w) {e : WorldEvent} (htrue : Truthful w e)
    (hok : InOrder w e) : InReach (worldStep timeoutS w e).1 := by
  cases e with
  | filled f => exact inReach_filled h htrue
  | partly ts => exact inReach_partly h ts
  | feed e =>
      cases e with
      | returned => exact inReach_returned timeoutS h hok
      | pollReturned => exact inReach_pollReturned timeoutS h
      | answer fills => exact inReach_answer timeoutS h htrue
      | poll nowMs => exact inReach_poll timeoutS h htrue hok
      | message now fills =>
          unfold worldStep step
          dsimp only
          split
          · split
            · exact { h with receiver_le_clock := fun _ hg => absurd hg List.not_mem_nil }
            · have hheard : InReach { w with feed.lastMsgTs := now } := { h with }
              exact hheard.receive htrue
          · exact h
      | opened now =>
          unfold worldStep step
          dsimp only
          split
          · exact { h with receiver_le_clock := fun _ hg => absurd hg List.not_mem_nil }
          · exact h
      | closed => exact { h with receiver_le_clock := fun _ hg => absurd hg List.not_mem_nil }
      | check now =>
          unfold worldStep step
          dsimp only
          split
          · split
            · exact h.withoutPoll rfl rfl rfl (.inr rfl)
            · split
              · exact h.withoutPoll rfl rfl rfl (.inl rfl)
              · exact h
          · exact h
      | cleanup =>
          unfold worldStep step
          dsimp only
          split
          · exact h.withoutPoll rfl rfl rfl (.inl rfl)
          · exact h
      | pollFailed =>
          unfold worldStep step
          dsimp only
          split
          · exact h.withoutPoll rfl rfl rfl (.inr rfl)
          · exact h
      | pollDied =>
          unfold worldStep step
          dsimp only
          split
          · exact h.withoutPoll rfl rfl rfl (.inl rfl)
          · exact h
      | stop => exact { h with }

end

/-- The poll is not cut off. -/
def Unbroken (timeoutS : ℚ) (w : World) (e : WorldEvent) : Prop :=
  (worldStep timeoutS w e).1.feed.poller ≠ .ended ∧
    match e with
    | .feed .pollFailed => False
    | _ => True

/-- Fills that are seen or that the poll under way is to bring. -/
def Brought (fills : List OrderFilled) (s : Feed) : Prop :=
  ∀ f ∈ fills, f.orderId ∈ s.seenFillIds ∨ ∃ work, s.poller = .working work ∧ f ∈ work.tail

theorem Brought.receive {all : List OrderFilled} (h : Brought all s) :
    Brought all (s.receive fills).1 :=
  fun f hf => (h f hf).imp_left fun hmem => seen_subset_takeUp hmem

/-- Without anything left to bring. -/
theorem Brought.seen {all : List OrderFilled} (h : Brought all s)
    (hidle : ∀ work, s.poller = .working work → work = []) {f : OrderFilled} (hf : f ∈ all) :
    f.orderId ∈ s.seenFillIds := by
  rcases h f hf with hmem | ⟨work, hwork, hmem⟩
  · exact hmem
  · rw [hidle work hwork] at hmem
    exact absurd hmem List.not_mem_nil

theorem brought_step (timeoutS : ℚ) {all : List OrderFilled} {e : Event} (hone : s.OnePoller)
    (hbusy : s.poller ≠ .ended) (h : Brought all s) (hfailed : e ≠ .pollFailed)
    (hnext : (step timeoutS s e).1.poller ≠ .ended) : Brought all (step timeoutS s e).1 := by
  cases e <;> unfold step at hnext ⊢ <;> dsimp only at hnext ⊢
  case opened now => split <;> exact h
  case message now fills =>
    split
    · split
      · exact h
      · exact Brought.receive (s := { s with lastMsgTs := now }) h
    · exact h
  case returned =>
    split
    · exact Brought.receive (s := { s with lastFillTsMs := _ }) h
    · exact h
  case closed => exact h
  case check now =>
    split
    · next hopen =>
        rw [if_pos hopen] at hnext
        split
        · next hoff => exact absurd (hone hoff.2) hbusy
        · next hon =>
            rw [if_neg hon] at hnext
            split
            · next hback =>
                rw [if_pos hback] at hnext
                exact absurd rfl hnext
            · exact h
    · exact h
  case cleanup =>
    split
    · next hdone =>
        rw [if_pos hdone] at hnext
        exact absurd rfl hnext
    · exact h
  case poll nowMs =>
    split
    · next hidle =>
        rw [hidle] at hnext
        dsimp only at hnext
        split
        · exact fun f hf => .inl (h.seen (fun work hwork =>
            (Poller.working.inj (hidle.symm.trans hwork)).symm) hf)
        · next hstopped =>
            rw [if_neg hstopped] at hnext
            exact absurd rfl hnext
    · exact h
  case answer fills =>
    split
    · next hasking =>
        exact fun f hf => .inl (seen_subset_takeUp (h.seen (fun work hwork =>
          Poller.noConfusion (hasking.symm.trans hwork)) hf))
    · exact h
  case pollReturned =>
    split
    · next g rest hworking =>
        intro f hf
        rcases h f hf with hmem | ⟨work, hwork, hmem⟩
        · exact .inl (seen_subset_takeUp (s := { s with lastFillTsMs := _ }) hmem)
        · obtain rfl := Poller.working.inj (hworking.symm.trans hwork)
          by_cases hseen : f.orderId ∈
              (Feed.takeUp { s with lastFillTsMs := max s.lastFillTsMs g.tsExchange }
                rest).1.seenFillIds
          · exact .inl hseen
          · exact .inr ⟨_, rfl, mem_tail_takeUp hmem hseen⟩
    · exact h
  case pollFailed => exact absurd rfl hfailed
  case pollDied =>
    split
    · next hpolling =>
        rw [if_pos hpolling] at hnext
        exact absurd rfl hnext
    · exact h
  case stop => exact h

theorem brought_run (timeoutS : ℚ) {all : List OrderFilled} {w : World} (hone : w.feed.OnePoller)
    (hbusy : w.feed.poller ≠ .ended) (h : Brought all w.feed) {es : List WorldEvent}
    (hes : Along (worldStep timeoutS) (Unbroken timeoutS) w es) :
    Brought all (final (worldStep timeoutS) w es).feed := by
  induction es generalizing w with
  | nil => exact h
  | cons e es ih =>
      obtain ⟨⟨hnext, hfailed⟩, hrest⟩ := hes
      cases e with
      | filled f => exact ih hone hbusy h hrest
      | partly ts => exact ih hone hbusy h hrest
      | feed e =>
          refine ih (onePoller_step timeoutS hone e) hnext ?_ hrest
          refine brought_step timeoutS hone hbusy h (fun heq => ?_) hnext
          rw [heq] at hfailed
          exact hfailed

theorem onePoller_run (timeoutS : ℚ) {w : World} (hone : w.feed.OnePoller) (es : List WorldEvent) :
    (final (worldStep timeoutS) w es).feed.OnePoller := by
  refine final_invariant (I := fun w : World => w.feed.OnePoller) (fun w e hone => ?_) es hone
  cases e with
  | filled f => exact hone
  | partly ts => exact hone
  | feed e => exact onePoller_step timeoutS hone e

/-- The exchange beside the feed does not change what the feed does. -/
theorem mem_handed_of_seen (timeoutS : ℚ) {w : World} (hone : w.feed.OnePoller)
    {es : List WorldEvent} {id : String}
    (h : id ∈ (final (worldStep timeoutS) w es).feed.seenFillIds) :
    id ∈ w.feed.seenFillIds ∨
      id ∈ (handed (trace (worldStep timeoutS) w es)).map OrderFilled.orderId := by
  induction es generalizing w with
  | nil => exact .inl h
  | cons e es ih =>
      rw [trace_cons, handed_append, List.map_append, List.mem_append]
      rcases ih (onePoller_run timeoutS hone [e]) h with hseen | hlater
      · cases e with
        | filled f => exact .inl hseen
        | partly ts => exact .inl hseen
        | feed e =>
            have hseen' : id ∈ (step timeoutS w.feed e).1.seenFillIds := hseen
            rw [(keeps_step timeoutS hone e).seen, List.mem_append, List.mem_reverse] at hseen'
            exact hseen'.symm.imp_right .inl
      · exact .inr (.inr hlater)

/-- The world before the first session. -/
def startWorld (now : ℚ) : World := ⟨start now, [], 0⟩

theorem inReach_startWorld (now : ℚ) : InReach (startWorld now) where
  last_le_clock := le_refl 0
  receiver_le_clock := fun _ hg => absurd hg List.not_mem_nil
  last_le := fun _ hf => absurd hf.1 List.not_mem_nil
  asking := fun _ hasking => Poller.noConfusion hasking
  working := fun _ hwork => Poller.noConfusion hwork

/-- **As long as the session overtakes no missing order, every poll that is answered and not cut off
has handed over, when the polling task sleeps again, all orders that were filled before the
answer.** -/
theorem caught_up {timeoutS now : ℚ} {es es' : List WorldEvent} {since : ℤ}
    {fills : List OrderFilled}
    (htrue : Along (worldStep timeoutS) Truthful (startWorld now) (es ++ [.feed (.answer fills)]))
    (hok : Along (worldStep timeoutS) InOrder (startWorld now) es)
    (hasking : (final (worldStep timeoutS) (startWorld now) es).feed.poller = .asking since)
    (hwhole : Along (worldStep timeoutS) (Unbroken timeoutS)
      (final (worldStep timeoutS) (startWorld now) (es ++ [.feed (.answer fills)])) es')
    (hidle : (final (worldStep timeoutS) (startWorld now)
      (es ++ .feed (.answer fills) :: es')).feed.poller = .working []) :
    ∀ f ∈ (final (worldStep timeoutS) (startWorld now) es).filled,
      f.orderId ∈ (handed (trace (worldStep timeoutS) (startWorld now)
        (es ++ .feed (.answer fills) :: es'))).map OrderFilled.orderId := by
  intro f hf
  have hwholeTrace : es ++ .feed (.answer fills) :: es' = es ++ [.feed (.answer fills)] ++ es' :=
    List.append_cons es _ es'
  obtain ⟨htrue₁, htrue₂, -⟩ := along_append.mp htrue
  have hone : (startWorld now).feed.OnePoller := onePoller_start now
  have hreach : InReach (final (worldStep timeoutS) (startWorld now) es) :=
    final_invariant_along (I := InReach) (fun w e h he => inReach_step timeoutS h he.1 he.2) es
      (inReach_startWorld now) (htrue₁.and hok)
  generalize hw : final (worldStep timeoutS) (startWorld now) es = w at *
  have hanswered : final (worldStep timeoutS) (startWorld now) (es ++ [.feed (.answer fills)]) =
      { w with feed := (w.feed.catchUp (sortFills fills)).1 } := by
    rw [final_append, hw]
    show ({ w with feed := (step timeoutS w.feed (.answer fills)).1 } : World) = _
    unfold step
    dsimp only
    rw [hasking]
  -- What the answer does not hold was seen before.
  have hbrought : Brought w.filled (w.feed.catchUp (sortFills fills)).1 := by
    intro g hg
    by_cases hseen : g.orderId ∈ (w.feed.takeUp (sortFills fills)).1.seenFillIds
    · exact .inl hseen
    · have hmissing : w.Missing g := ⟨hg, fun hmem => hseen (seen_subset_takeUp hmem)⟩
      have hmem : g ∈ fills :=
        htrue₂.2 since hasking g hg ((hreach.asking since hasking).2 g hmissing)
      exact .inr ⟨_, rfl, mem_tail_takeUp ((List.mem_insertionSort _).mpr hmem) hseen⟩
  have hone' := onePoller_run timeoutS hone (es ++ [.feed (.answer fills)])
  rw [hanswered] at hwhole hone'
  have hend := brought_run timeoutS hone' (fun h => Poller.noConfusion h) hbrought hwhole
  rw [hwholeTrace] at hidle ⊢
  rw [final_append, hanswered] at hidle
  have hseen := hend.seen (fun work hwork => (Poller.working.inj (hidle.symm.trans hwork)).symm) hf
  rw [← hanswered, ← final_append] at hseen
  exact (mem_handed_of_seen timeoutS hone hseen).resolve_left List.not_mem_nil

/-! ### A silent session -/

/-- A session that is silent while an order is filled. -/
def silent : List WorldEvent :=
  [.feed (.opened 0), .filled (filledAt "a" 5), .feed (.check 31), .feed (.poll 1800000)]

theorem silent_order_handed :
    "a" ∈ (handed (trace (worldStep 30) (startWorld 0)
      (silent ++ .feed (.answer [filledAt "a" 5]) :: [.feed .pollReturned]))).map
        OrderFilled.orderId := by
  have htrue : Along (worldStep 30) Truthful (startWorld 0)
      (silent ++ [.feed (.answer [filledAt "a" 5])]) := by
    refine ⟨trivial, ?_, trivial, ?_, ⟨?_, fun _ _ _ hf _ => hf⟩, trivial⟩
    · show (0 : ℤ) ≤ 5
      decide
    · show (1800000 - 1800000 : ℤ) ≤ 5
      decide
    · intro f hf
      obtain rfl := List.mem_singleton.mp hf
      exact le_refl (5 : ℤ)
  have hok : Along (worldStep 30) InOrder (startWorld 0) silent := by
    refine ⟨trivial, trivial, trivial, ⟨fun _ f hf => ?_, trivial⟩⟩
    obtain rfl := List.mem_singleton.mp hf.1
    decide
  have hasking : (final (worldStep 30) (startWorld 0) silent).feed.poller = .asking 0 := by
    decide +kernel
  have hwhole : Along (worldStep 30) (Unbroken 30) (final (worldStep 30) (startWorld 0)
      (silent ++ [.feed (.answer [filledAt "a" 5])])) [.feed .pollReturned] :=
    ⟨⟨by decide +kernel, trivial⟩, trivial⟩
  exact caught_up htrue hok hasking hwhole (by decide +kernel) (filledAt "a" 5) List.mem_cons_self

end PrivateFeed
end MagnumOpus.Bot
