import MagnumOpus.Lib.ConsumerGroup
import MagnumOpus.Lib.EventMachine
import MagnumOpus.Bot.StreamEvents
import MagnumOpus.Candle.GapEntries

/-! # The read loop of the event bus

`BusManager._consume_loop` in `event_bus.py`: one thread reads what is new to the group in all
streams, and then takes the entries of the batch one after another: it decodes an entry, routes the
event to every registered strategy and acknowledges the entry.

* **Failures.** Whatever is raised ends the batch.  The loop waits and reads again, and again only
  what is new to the group; when that has failed for too long the loop ends.
* **The hope.** `Complete`: every entry with an event that the group has delivered is in the batch
  or has been routed, once.
* **When it holds.** Exactly when no failure hits a batch that still has events to come, and no read
  loses events that the group has delivered for it (`complete_iff_safe`). -/

namespace MagnumOpus.Bot

open EventMachine ConsumerGroup
open Candle (CallEnd)

/-- The fields of an entry as they are stored; a text is `none` when its bytes are no UTF-8. -/
abbrev RawEntry := List (Option String × Option String)

/-- A stream key, and the position of an entry in the stream. -/
abbrev EntryId := String × ℕ

/-- Reads the bytes. -/
def decode (raw : RawEntry) : Option Entry :=
  raw.mapM fun kv =>
    match kv.1, kv.2 with
    | some k, some v => some (k, v)
    | _, _ => none

structure Bus where
  streams : String → Stream RawEntry
  streamKeys : List String := []
  /-- The registered strategies. -/
  handles : List String := []
  stopEvent : Bool := false
  /-- The loop has not returned. -/
  running : Bool := true
  /-- Seconds to wait after the next failure. -/
  backoff : ℕ := 1
  consecutiveCapHits : ℕ := 0
  /-- What is left of the batch. -/
  batch : List EntryId := []
  /-- Everything that the group has delivered. -/
  delivered : List EntryId := []
  /-- The entries that have been routed, with the strategies they went to. -/
  routed : List (EntryId × List String) := []

inductive BusInput where
  /-- A producer adds an entry to a stream. -/
  | add (streamKey : String) (raw : RawEntry)
  | trim (streamKey : String) (p : ℕ)
  | dynamicRegister (name : String)
  | dynamicDeregister (name : String)
  /-- The loop reads. -/
  | read (how : CallEnd)
  /-- The loop takes the next entry of the batch. -/
  | handle (xack : CallEnd)
  | stop

namespace Bus

variable (P : PyNumbers)

def addStream (keys : List String) (streamKey : String) : List String :=
  if streamKey ∈ keys then keys else keys ++ [streamKey]

/-- The group of every stream is created at its end, unless it exists. -/
def ensureConsumerGroups (s : Bus) : Bus :=
  { s with streams := fun key =>
      if key ∈ s.streamKeys then (s.streams key).createGroup (s.streams key).entries.length
      else s.streams key }

/-- The bus when its loop begins. -/
def start (streams : String → Stream RawEntry) (keys handles : List String) : Bus :=
  ensureConsumerGroups { streams, streamKeys := keys.foldl addStream [], handles }

/-- The event of an entry, when it has one. -/
def eventOf (s : Bus) (id : EntryId) : Option BusEvent :=
  (((s.streams id.1).entries[id.2]?).bind decode).bind fun entry =>
    (parseStreamEntry P id.1 entry).1

/-- What a read delivers: at most a hundred entries of each stream. -/
def newEntries (s : Bus) : List EntryId :=
  s.streamKeys.flatMap fun key => ((s.streams key).delivered 100).map (Prod.mk key)

def deliver (s : Bus) : Bus :=
  { s with
    streams := fun key =>
      if key ∈ s.streamKeys then (s.streams key).deliver 100 else s.streams key
    delivered := s.delivered ++ s.newEntries }

/-- The handler around the body of the loop. -/
def fail (s : Bus) : Bus :=
  let consecutiveCapHits := if 60 ≤ s.backoff then s.consecutiveCapHits + 1 else 0
  if 3 ≤ consecutiveCapHits then { s with batch := [], consecutiveCapHits, running := false }
  else { s with batch := [], consecutiveCapHits, backoff := min (s.backoff * 2) 60 }

def read (s : Bus) (how : CallEnd) : Bus :=
  match how with
  | .ok => { s.deliver with batch := s.newEntries, backoff := 1, consecutiveCapHits := 0 }
  | .failed => s.fail
  | .lost => s.deliver.fail

/-- Delivers the event of an entry to every strategy. -/
def route (s : Bus) (id : EntryId) : Bus :=
  match s.eventOf P id with
  | none => s
  | some _ => { s with routed := s.routed ++ [(id, s.handles)] }

def ack (s : Bus) (id : EntryId) : Bus :=
  { s with streams := Function.update s.streams id.1 ((s.streams id.1).ack id.2) }

def handle (s : Bus) (id : EntryId) (rest : List EntryId) (xack : CallEnd) : Bus :=
  match ((s.streams id.1).entries[id.2]?).bind decode with
  | none => s.fail
  | some _ =>
      let acked := if xack.done then (s.route P id).ack id else s.route P id
      if xack.succeeds then { acked with batch := rest } else acked.fail

/-- The loop can read. -/
def Reads (s : Bus) : Prop := s.running = true ∧ s.stopEvent = false ∧ s.batch = []

instance (s : Bus) : Decidable s.Reads :=
  inferInstanceAs (Decidable (s.running = true ∧ s.stopEvent = false ∧ s.batch = []))

def step : Step Bus BusInput Empty := fun s e =>
  match e with
  | .add key raw =>
      ({ s with streams := Function.update s.streams key ((s.streams key).add raw) }, [])
  | .trim key p =>
      ({ s with streams := Function.update s.streams key ((s.streams key).trim p) }, [])
  | .dynamicRegister name => ({ s with handles := addStream s.handles name }, [])
  | .dynamicDeregister name => ({ s with handles := s.handles.filter (· ≠ name) }, [])
  | .read how => (if s.Reads then s.read how else s, [])
  | .handle xack =>
      match s.batch with
      | [] => (s, [])
      | id :: rest => (s.handle P id rest xack, [])
  | .stop => ({ s with stopEvent := true }, [])

/-- The entry has an event for the strategies. -/
def Wanted (s : Bus) (id : EntryId) : Prop := (s.eventOf P id).isSome = true

instance (s : Bus) (id : EntryId) : Decidable (s.Wanted P id) :=
  inferInstanceAs (Decidable ((s.eventOf P id).isSome = true))

def Routed (s : Bus) (id : EntryId) : Prop := id ∈ s.routed.map Prod.fst

instance (s : Bus) (id : EntryId) : Decidable (s.Routed id) :=
  inferInstanceAs (Decidable (id ∈ s.routed.map Prod.fst))

/-- Every delivered event is about to be routed or has been, once. -/
structure Complete (s : Bus) : Prop where
  reached : ∀ id ∈ s.delivered, s.Wanted P id → id ∈ s.batch ∨ s.Routed id
  once : (s.routed.map Prod.fst).Nodup

/-- The failure of the step takes no event with it. -/
def Safe (s : Bus) : BusInput → Prop
  | .read how => s.Reads → how = .lost → ∀ id ∈ s.newEntries, ¬ s.Wanted P id
  | .handle xack => ∀ id rest, s.batch = id :: rest →
      (((s.streams id.1).entries[id.2]?).bind decode).isSome = true ∧ xack = .ok ∨
        ∀ id' ∈ rest, ¬ s.Wanted P id'
  | _ => True

variable {P} {s s' : Bus} {id : EntryId}

/-! ### What a step can do -/

/-- The streams go on, and the group does not go back. -/
structure Moves (s s' : Bus) : Prop where
  streamKeys : s'.streamKeys = s.streamKeys
  origin : ∀ key, (s.streams key).origin ≠ none → (s'.streams key).origin ≠ none
  next : ∀ key, (s.streams key).next ≤ (s'.streams key).next
  entries : ∀ key, (s.streams key).entries <+: (s'.streams key).entries

theorem Moves.of_streams (hkeys : s'.streamKeys = s.streamKeys) (h : s'.streams = s.streams) :
    Moves s s' := by
  refine ⟨hkeys, ?_, ?_, ?_⟩ <;> rw [h]
  · exact fun _ hkey => hkey
  · exact fun _ => le_refl _
  · exact fun _ => List.prefix_refl _

theorem Moves.trans {s'' : Bus} (h : Moves s s') (h' : Moves s' s'') : Moves s s'' where
  streamKeys := h'.streamKeys.trans h.streamKeys
  origin key hkey := h'.origin key (h.origin key hkey)
  next key := (h.next key).trans (h'.next key)
  entries key := (h.entries key).trans (h'.entries key)

theorem moves_update {stream : Stream RawEntry} {key : String}
    (hkeys : s'.streamKeys = s.streamKeys)
    (hstreams : s'.streams = Function.update s.streams key stream)
    (horigin : stream.origin = (s.streams key).origin) (hnext : (s.streams key).next ≤ stream.next)
    (hentries : (s.streams key).entries <+: stream.entries) : Moves s s' := by
  have hother : ∀ key', key' ≠ key → s'.streams key' = s.streams key' := by
    intro key' hne
    rw [hstreams, Function.update_of_ne hne]
  have hsame : s'.streams key = stream := by rw [hstreams, Function.update_self]
  refine ⟨hkeys, fun key' hkey' => ?_, fun key' => ?_, fun key' => ?_⟩
  · by_cases hkey : key' = key
    · rw [hkey] at hkey' ⊢
      rwa [hsame, horigin]
    · rwa [hother key' hkey]
  · by_cases hkey : key' = key
    · rw [hkey, hsame]
      exact hnext
    · rw [hother key' hkey]
  · by_cases hkey : key' = key
    · rw [hkey, hsame]
      exact hentries
    · rw [hother key' hkey]

theorem mem_newEntries :
    id ∈ s.newEntries ↔ id.1 ∈ s.streamKeys ∧ id.2 ∈ (s.streams id.1).delivered 100 := by
  obtain ⟨key, p⟩ := id
  simp only [newEntries, List.mem_flatMap, List.mem_map, Prod.mk.injEq]
  constructor
  · rintro ⟨key', hkey, p', hp, rfl, rfl⟩
    exact ⟨hkey, hp⟩
  · rintro ⟨hkey, hp⟩
    exact ⟨key, hkey, p, hp, rfl, rfl⟩

theorem nodup_newEntries (h : s.streamKeys.Nodup) : s.newEntries.Nodup := by
  rw [newEntries, List.nodup_flatMap]
  constructor
  · intro key _
    exact List.Nodup.map (Prod.mk_right_injective key)
      ((Stream.pairwise_delivered _ 100).imp ne_of_lt)
  · refine h.imp fun hne => ?_
    rw [Function.onFun, List.disjoint_left]
    intro id hid hid'
    obtain ⟨_, -, rfl⟩ := List.mem_map.mp hid
    obtain ⟨_, -, heq⟩ := List.mem_map.mp hid'
    exact hne (congrArg Prod.fst heq).symm

theorem moves_deliver (hgroups : ∀ key ∈ s.streamKeys, (s.streams key).origin ≠ none) :
    Moves s s.deliver ∧ ∀ id ∈ s.newEntries, id.2 < (s.deliver.streams id.1).next := by
  constructor
  · refine ⟨rfl, fun key hkey => ?_, fun key => ?_, fun key => ?_⟩ <;> simp only [deliver] <;> split
    · rwa [Stream.origin_deliver]
    · exact hkey
    · next hmem =>
        rw [Stream.next_deliver (hgroups key hmem)]
        exact Nat.le_add_right _ _
    · exact le_refl _
    · exact List.prefix_refl _
    · exact List.prefix_refl _
  · intro id hid
    obtain ⟨hmem, hp⟩ := mem_newEntries.mp hid
    simp only [deliver, if_pos hmem]
    rw [Stream.next_deliver (hgroups _ hmem), Stream.length_delivered]
    obtain ⟨hle, hlt, hlen⟩ := Stream.mem_delivered.mp hp
    omega

/-- The handler drops the batch and leaves the streams and the routes alone. -/
theorem fail_eq (s : Bus) : ∃ backoff consecutiveCapHits running,
    s.fail = { s with batch := [], backoff, consecutiveCapHits, running } := by
  unfold fail
  by_cases hcap : 3 ≤ (if 60 ≤ s.backoff then s.consecutiveCapHits + 1 else 0)
  · exact ⟨_, _, _, if_pos hcap⟩
  · exact ⟨_, _, _, if_neg hcap⟩

/-- What a step does to the entries. -/
inductive Stepped (P : PyNumbers) (s : Bus) (e : BusInput) (s' : Bus) : Prop
  | quiet (hsafe : s.Safe P e) (hdelivered : s'.delivered = s.delivered)
      (hbatch : s'.batch = s.batch) (hrouted : s'.routed = s.routed)
  | read (how : CallEnd) (he : e = .read how) (hreads : s.Reads)
      (hdelivered : s'.delivered = s.delivered ++ s.newEntries)
      (hbatch : s'.batch = if how = .lost then [] else s.newEntries)
      (hrouted : s'.routed = s.routed)
      (hbelow : ∀ id ∈ s.newEntries, id.2 < (s'.streams id.1).next)
  | handled (xack : CallEnd) (id : EntryId) (rest : List EntryId) (he : e = .handle xack)
      (hhead : s.batch = id :: rest) (hdelivered : s'.delivered = s.delivered)
      (hbatch : s'.batch =
        if (((s.streams id.1).entries[id.2]?).bind decode).isSome = true ∧ xack = .ok then rest
        else [])
      (hrouted : s'.routed = s.routed ++ if s.Wanted P id then [(id, s.handles)] else [])

theorem stepped_read (how : CallEnd) (hreads : s.Reads)
    (hgroups : ∀ key ∈ s.streamKeys, (s.streams key).origin ≠ none) :
    Moves s (s.read how) ∧ Stepped P s (.read how) (s.read how) := by
  obtain ⟨hmoves, hbelow⟩ := moves_deliver hgroups
  cases how with
  | ok =>
      exact ⟨hmoves.trans (.of_streams rfl rfl), .read .ok rfl hreads rfl rfl rfl hbelow⟩
  | failed =>
      obtain ⟨_, _, _, hfail⟩ := s.fail_eq
      rw [read, hfail]
      refine ⟨.of_streams rfl rfl, .quiet ?_ rfl hreads.2.2.symm rfl⟩
      exact fun _ hlost => absurd hlost (by decide)
  | lost =>
      obtain ⟨_, _, _, hfail⟩ := s.deliver.fail_eq
      rw [read, hfail]
      exact ⟨hmoves.trans (.of_streams rfl rfl), .read .lost rfl hreads rfl rfl rfl hbelow⟩

theorem route_eq (s : Bus) (id : EntryId) :
    s.route P id =
      { s with routed := s.routed ++ if s.Wanted P id then [(id, s.handles)] else [] } := by
  unfold route
  by_cases hwanted : s.Wanted P id
  · obtain ⟨ev, hev⟩ := Option.isSome_iff_exists.mp hwanted
    rw [hev, if_pos hwanted]
  · rw [Option.not_isSome_iff_eq_none.mp hwanted, if_neg hwanted, List.append_nil]

/-- An acknowledgement is seen by the group alone. -/
theorem moves_ack (s : Bus) (id : EntryId) : Moves s (s.ack id) :=
  moves_update rfl rfl (Stream.origin_ack _ _) (le_of_eq Stream.next_ack.symm)
    (List.prefix_refl _)

theorem stepped_handle (id : EntryId) (rest : List EntryId) (xack : CallEnd)
    (hhead : s.batch = id :: rest) :
    Moves s (s.handle P id rest xack) ∧
      Stepped P s (.handle xack) (s.handle P id rest xack) := by
  unfold handle
  cases hraw : ((s.streams id.1).entries[id.2]?).bind decode with
  | none =>
      obtain ⟨_, _, _, hfail⟩ := s.fail_eq
      have hunwanted : ¬ s.Wanted P id := by simp [Wanted, eventOf, hraw]
      rw [hfail]
      refine ⟨.of_streams rfl rfl, .handled xack id rest rfl hhead rfl ?_ ?_⟩
      · simp [hraw]
      · simp [hunwanted]
  | some entry =>
      simp only [route_eq]
      -- Whether Redis has done it or not, the routes are the same.
      have hacked : ∀ t : Bus, Moves s t →
          t.routed = s.routed ++ (if s.Wanted P id then [(id, s.handles)] else []) →
          t.delivered = s.delivered →
          Moves s (if xack.succeeds then { t with batch := rest } else t.fail) ∧
            Stepped P s (.handle xack)
              (if xack.succeeds then { t with batch := rest } else t.fail) := by
        intro t hmoves hrouted hdelivered
        cases xack with
        | ok =>
            refine ⟨hmoves.trans (.of_streams rfl rfl), .handled .ok id rest rfl hhead hdelivered ?_
              hrouted⟩
            simp [hraw, CallEnd.succeeds]
        | failed =>
            obtain ⟨_, _, _, hfail⟩ := t.fail_eq
            simp only [CallEnd.succeeds, reduceCtorEq, decide_false, Bool.false_eq_true, if_false,
              hfail]
            exact ⟨hmoves.trans (.of_streams rfl rfl), .handled .failed id rest rfl hhead hdelivered
              (by simp) hrouted⟩
        | lost =>
            obtain ⟨_, _, _, hfail⟩ := t.fail_eq
            simp only [CallEnd.succeeds, reduceCtorEq, decide_false, Bool.false_eq_true, if_false,
              hfail]
            exact ⟨hmoves.trans (.of_streams rfl rfl), .handled .lost id rest rfl hhead hdelivered
              (by simp) hrouted⟩
      cases xack.done with
      | true =>
          rw [if_pos rfl]
          have hroute : Moves s { s with
              routed := s.routed ++ if s.Wanted P id then [(id, s.handles)] else [] } :=
            .of_streams rfl rfl
          exact hacked _ (hroute.trans (moves_ack _ id)) rfl rfl
      | false =>
          rw [if_neg Bool.false_ne_true]
          exact hacked _ (.of_streams rfl rfl) rfl rfl

/-! ### The invariant -/

structure Inv (s : Bus) : Prop where
  keys : s.streamKeys.Nodup
  groups : ∀ key ∈ s.streamKeys, (s.streams key).origin ≠ none
  below : ∀ id ∈ s.delivered,
    id.2 < (s.streams id.1).next ∧ id.2 < (s.streams id.1).entries.length
  held : ∀ id, id ∈ s.batch ∨ s.Routed id → id ∈ s.delivered
  once : (s.routed.map Prod.fst ++ s.batch).Nodup

/-- A step in one of these ways, and how the streams have moved. -/
theorem stepped_step (h : Inv s) (e : BusInput) :
    Moves s (step P s e).1 ∧ Stepped P s e (step P s e).1 := by
  cases e with
  | add key raw =>
      exact ⟨moves_update rfl rfl (Stream.origin_add _ _) (le_of_eq (Stream.next_add raw).symm)
        (List.prefix_append _ _), .quiet trivial rfl rfl rfl⟩
  | trim key p =>
      refine ⟨moves_update rfl rfl (Stream.origin_trim _ _) ?_ (List.prefix_refl _),
        .quiet trivial rfl rfl rfl⟩
      rw [Stream.next_trim]
      exact le_max_left _ _
  | dynamicRegister name => exact ⟨.of_streams rfl rfl, .quiet trivial rfl rfl rfl⟩
  | dynamicDeregister name => exact ⟨.of_streams rfl rfl, .quiet trivial rfl rfl rfl⟩
  | stop => exact ⟨.of_streams rfl rfl, .quiet trivial rfl rfl rfl⟩
  | read how =>
      by_cases hreads : s.Reads
      · simp only [step, if_pos hreads]
        exact stepped_read how hreads h.groups
      · simp only [step, if_neg hreads]
        exact ⟨.of_streams rfl rfl, .quiet (fun hyes => absurd hyes hreads) rfl rfl rfl⟩
  | handle xack =>
      cases hhead : s.batch with
      | nil =>
          simp only [step, hhead]
          refine ⟨.of_streams rfl rfl, .quiet ?_ rfl rfl rfl⟩
          intro id rest hcons
          rw [hhead] at hcons
          cases hcons
      | cons id rest =>
          simp only [step, hhead]
          exact stepped_handle id rest xack hhead

theorem Inv.not_delivered (h : Inv s) (hid : id ∈ s.newEntries) : id ∉ s.delivered := by
  intro hmem
  obtain ⟨hle, -⟩ := Stream.mem_delivered.mp (mem_newEntries.mp hid).2
  exact absurd (h.below id hmem).1 (not_lt.mpr hle)

theorem routed_append {extra : List (EntryId × List String)}
    (hrouted : s'.routed = s.routed ++ extra) :
    s'.Routed id ↔ s.Routed id ∨ id ∈ extra.map Prod.fst := by
  rw [Routed, hrouted, List.map_append, List.mem_append]
  rfl

theorem inv_step (h : Inv s) (e : BusInput) : Inv (step P s e).1 := by
  obtain ⟨hmoves, hstep⟩ := stepped_step (P := P) h e
  have hold : ∀ id ∈ s.delivered, id.2 < ((step P s e).1.streams id.1).next ∧
      id.2 < ((step P s e).1.streams id.1).entries.length := fun id hid =>
    ⟨(h.below id hid).1.trans_le (hmoves.next id.1),
      (h.below id hid).2.trans_le (hmoves.entries id.1).length_le⟩
  have hkeys : (step P s e).1.streamKeys.Nodup := by
    rw [hmoves.streamKeys]
    exact h.keys
  have hgroups : ∀ key ∈ (step P s e).1.streamKeys,
      ((step P s e).1.streams key).origin ≠ none := fun key hkey =>
    hmoves.origin key (h.groups key (hmoves.streamKeys ▸ hkey))
  cases hstep with
  | quiet _ hdelivered hbatch hrouted =>
      refine ⟨hkeys, hgroups, ?_, ?_, ?_⟩
      · rw [hdelivered]
        exact hold
      · intro id hid
        rw [hdelivered]
        rw [hbatch, Routed, hrouted] at hid
        exact h.held id hid
      · rw [hbatch, hrouted]
        exact h.once
  | read how _ hreads hdelivered hbatch hrouted hbelow =>
      have honce := h.once
      rw [hreads.2.2, List.append_nil] at honce
      have hsub : ∀ id ∈ (step P s e).1.batch, id ∈ s.newEntries := by
        rw [hbatch]
        split
        · exact fun _ hid => absurd hid List.not_mem_nil
        · exact fun _ hid => hid
      refine ⟨hkeys, hgroups, ?_, ?_, ?_⟩
      · intro id hid
        rw [hdelivered, List.mem_append] at hid
        rcases hid with hid | hid
        · exact hold id hid
        · have hlen := (Stream.mem_delivered.mp (mem_newEntries.mp hid).2).2.2
          exact ⟨hbelow id hid, hlen.trans_le (hmoves.entries id.1).length_le⟩
      · intro id hid
        rw [hdelivered, List.mem_append]
        rw [Routed, hrouted] at hid
        rcases hid with hid | hid
        · exact .inr (hsub id hid)
        · exact .inl (h.held id (.inr hid))
      · rw [hrouted]
        refine List.Nodup.append honce ?_ ?_
        · rw [hbatch]
          split
          · exact List.nodup_nil
          · exact nodup_newEntries h.keys
        · intro id hid hnew
          exact h.not_delivered (hsub id hnew) (h.held id (.inr hid))
  | handled xack id rest _ hhead hdelivered hbatch hrouted =>
      have hsub : (step P s e).1.batch.Sublist rest := by
        rw [hbatch]
        split
        · exact List.Sublist.refl _
        · exact List.nil_sublist _
      refine ⟨hkeys, hgroups, ?_, ?_, ?_⟩
      · rw [hdelivered]
        exact hold
      · intro id' hid'
        rw [hdelivered]
        rw [routed_append hrouted] at hid'
        rcases hid' with hid' | hid' | hid'
        · refine h.held id' (.inl ?_)
          rw [hhead]
          exact List.mem_cons_of_mem id (hsub.subset hid')
        · exact h.held id' (.inr hid')
        · refine h.held id' (.inl ?_)
          rw [hhead]
          split at hid'
          · obtain rfl := List.mem_singleton.mp hid'
            exact List.mem_cons_self
          · exact absurd hid' List.not_mem_nil
      · have honce := h.once
        rw [hhead] at honce
        rw [hrouted, List.map_append, List.append_assoc]
        refine honce.sublist ((List.Sublist.refl _).append ?_)
        split
        · exact hsub.cons_cons id
        · exact hsub.cons id

/-! ### Losses -/

/-- Every delivered event is in the batch or has been routed. -/
def NoLoss (P : PyNumbers) (s : Bus) : Prop :=
  ∀ id ∈ s.delivered, s.Wanted P id → id ∈ s.batch ∨ s.Routed id

theorem Inv.complete_iff (h : Inv s) : s.Complete P ↔ NoLoss P s :=
  ⟨fun hs => hs.reached, fun hs => ⟨hs, (List.nodup_append.mp h.once).1⟩⟩

/-- What has been delivered keeps its event. -/
theorem Moves.wanted (hmoves : Moves s s') (hid : id.2 < (s.streams id.1).entries.length) :
    s'.Wanted P id ↔ s.Wanted P id := by
  have hentry : (s'.streams id.1).entries[id.2]? = (s.streams id.1).entries[id.2]? := by
    obtain ⟨later, hlater⟩ := hmoves.entries id.1
    rw [← hlater, List.getElem?_append_left hid]
  rw [Wanted, Wanted, eventOf, eventOf, hentry]

/-- What is lost is never regained. -/
theorem lost_step (h : Inv s) (hlost : ¬ NoLoss P s) (e : BusInput) :
    ¬ NoLoss P (step P s e).1 := by
  obtain ⟨hmoves, hstep⟩ := stepped_step (P := P) h e
  simp only [NoLoss, not_forall, not_or] at hlost ⊢
  obtain ⟨id, hid, hwanted, hbatch, hrouted⟩ := hlost
  have hwanted' := (hmoves.wanted (P := P) (h.below id hid).2).mpr hwanted
  cases hstep with
  | quiet _ hdelivered hbatch' hrouted' =>
      refine ⟨id, hdelivered ▸ hid, hwanted', hbatch' ▸ hbatch, ?_⟩
      rwa [Routed, hrouted']
  | read how _ _ hdelivered hbatch' hrouted' _ =>
      refine ⟨id, ?_, hwanted', ?_, ?_⟩
      · rw [hdelivered]
        exact List.mem_append_left _ hid
      · rw [hbatch']
        split
        · exact List.not_mem_nil
        · exact fun hnew => h.not_delivered hnew hid
      · rwa [Routed, hrouted']
  | handled xack id' rest _ hhead hdelivered hbatch' hrouted' =>
      rw [hhead, List.mem_cons, not_or] at hbatch
      refine ⟨id, hdelivered ▸ hid, hwanted', ?_, ?_⟩
      · rw [hbatch']
        split
        · exact hbatch.2
        · exact List.not_mem_nil
      · rw [routed_append hrouted', not_or]
        refine ⟨hrouted, ?_⟩
        split
        · exact fun hmem => hbatch.1 (List.mem_singleton.mp hmem)
        · exact List.not_mem_nil

/-- A step keeps every event exactly when it is safe. -/
theorem noLoss_step (h : Inv s) (hs : NoLoss P s) (e : BusInput) :
    NoLoss P (step P s e).1 ↔ s.Safe P e := by
  obtain ⟨hmoves, hstep⟩ := stepped_step (P := P) h e
  have hwanted : ∀ id ∈ s.delivered, (step P s e).1.Wanted P id ↔ s.Wanted P id := fun id hid =>
    hmoves.wanted (h.below id hid).2
  cases hstep with
  | quiet hsafe hdelivered hbatch hrouted =>
      refine iff_of_true ?_ hsafe
      intro id hid hw
      rw [hdelivered] at hid
      rw [hbatch, Routed, hrouted]
      exact hs id hid ((hwanted id hid).mp hw)
  | read how he hreads hdelivered hbatch hrouted hbelow =>
      have hwanted' : ∀ id ∈ s.newEntries, (step P s e).1.Wanted P id ↔ s.Wanted P id :=
        fun id hid => hmoves.wanted (Stream.mem_delivered.mp (mem_newEntries.mp hid).2).2.2
      subst he
      constructor
      · intro hno _ hlost id hid hw
        rcases hno id (hdelivered ▸ List.mem_append_right _ hid) ((hwanted' id hid).mpr hw) with
          hmem | hmem
        · rw [hbatch, if_pos hlost] at hmem
          exact List.not_mem_nil hmem
        · rw [Routed, hrouted] at hmem
          exact h.not_delivered hid (h.held id (.inr hmem))
      · intro hsafe id hid hw
        rw [hdelivered, List.mem_append] at hid
        rw [hbatch, Routed, hrouted]
        rcases hid with hid | hid
        · have hold := hs id hid ((hwanted id hid).mp hw)
          rw [hreads.2.2] at hold
          exact .inr (hold.resolve_left List.not_mem_nil)
        · by_cases hlost : how = .lost
          · exact absurd ((hwanted' id hid).mp hw) (hsafe hreads hlost id hid)
          · rw [if_neg hlost]
            exact .inl hid
  | handled xack id rest he hhead hdelivered hbatch hrouted =>
      have honce := h.once
      rw [hhead] at honce
      obtain ⟨-, hcons, hdisjoint⟩ := List.nodup_append.mp honce
      have hrest : ∀ id' ∈ rest, id' ∈ s.delivered ∧ id' ≠ id ∧ ¬ s.Routed id' := by
        intro id' hid'
        refine ⟨h.held id' (.inl (hhead ▸ List.mem_cons_of_mem id hid')), ?_, ?_⟩
        · exact fun heq => (List.nodup_cons.mp hcons).1 (heq ▸ hid')
        · exact fun hr => hdisjoint id' hr id' (List.mem_cons_of_mem id hid') rfl
      subst he
      constructor
      · intro hno id₀ rest₀ hhead₀
        rw [hhead] at hhead₀
        obtain ⟨rfl, rfl⟩ := List.cons.inj hhead₀
        by_cases hok : (((s.streams id.1).entries[id.2]?).bind decode).isSome = true ∧ xack = .ok
        · exact .inl hok
        · refine .inr fun id' hid' hw => ?_
          obtain ⟨hmem, hne, hnot⟩ := hrest id' hid'
          rcases hno id' (hdelivered ▸ hmem) ((hwanted id' hmem).mpr hw) with hb | hr
          · rw [hbatch, if_neg hok] at hb
            exact List.not_mem_nil hb
          · rw [routed_append hrouted] at hr
            refine hr.elim hnot fun hnew => ?_
            split at hnew
            · exact hne (List.mem_singleton.mp hnew)
            · exact List.not_mem_nil hnew
      · intro hsafe id' hid' hw
        rw [hdelivered] at hid'
        have hw' := (hwanted id' hid').mp hw
        rw [routed_append hrouted, hbatch]
        rcases hs id' hid' hw' with hb | hr
        · rw [hhead, List.mem_cons] at hb
          rcases hb with rfl | hb
          · rw [if_pos hw']
            exact .inr (.inr (List.mem_singleton.mpr rfl))
          · rcases hsafe id rest hhead with hok | hnone
            · rw [if_pos hok]
              exact .inl hb
            · exact absurd hw' (hnone id' hb)
        · exact .inr (.inl hr)

/-! ### Runs -/

theorem nodup_addStream {keys : List String} (h : keys.Nodup) (key : String) :
    (addStream keys key).Nodup := by
  unfold addStream
  split
  · exact h
  · next hnot => exact List.nodup_append.mpr ⟨h, List.nodup_singleton key, by
      rintro a ha b hb rfl
      exact hnot (List.mem_singleton.mp hb ▸ ha)⟩

theorem inv_start (streams : String → Stream RawEntry) (keys handles : List String) :
    Inv (start streams keys handles) := by
  refine ⟨?_, fun key hkey => ?_, fun id hid => absurd hid List.not_mem_nil, ?_, List.nodup_nil⟩
  · show (keys.foldl addStream []).Nodup
    exact List.foldlRecOn keys addStream List.nodup_nil fun _ h key _ => nodup_addStream h key
  · have hstream : (start streams keys handles).streams key =
        (streams key).createGroup (streams key).entries.length := if_pos hkey
    rw [hstream, Stream.origin_createGroup]
    cases (streams key).origin <;> simp
  · intro id hid
    rcases hid with hid | hid
    · exact absurd hid List.not_mem_nil
    · exact absurd hid List.not_mem_nil

/-- **Every event that the group has delivered reaches the strategies once, exactly as long as no
failure takes events with it.** -/
theorem complete_iff_safe (P : PyNumbers) (streams : String → Stream RawEntry)
    (keys handles : List String) (es : List BusInput) :
    (final (step P) (start streams keys handles) es).Complete P ↔
      Along (step P) (Safe P) (start streams keys handles) es := by
  have hstart := inv_start streams keys handles
  have hinv : Inv (final (step P) (start streams keys handles) es) :=
    final_invariant (I := Inv) (fun _ e h => inv_step h e) es hstart
  rw [hinv.complete_iff]
  exact final_iff_along_of_invariant (J := Inv) (fun _ e h => inv_step h e)
    (fun _ e h hlost => lost_step h hlost e) (fun _ e h hs => noLoss_step h hs e) es hstart
    fun id hid => absurd hid List.not_mem_nil

theorem not_complete_of_lost (h : Inv s) (hlost : ¬ s.Complete P) (es : List BusInput) :
    ¬ (final (step P) s es).Complete P := by
  rw [h.complete_iff] at hlost
  have hboth := final_invariant (I := fun s : Bus => Inv s ∧ ¬ NoLoss P s)
    (fun s e hs => ⟨inv_step hs.1 e, lost_step hs.1 hs.2 e⟩) es ⟨h, hlost⟩
  rw [hboth.1.complete_iff]
  exact hboth.2

/-- Two funding rates, and a failed acknowledgement of the first. -/
def failedAck : List BusInput :=
  let rate : RawEntry :=
    [(some "ts", some "60"), (some "funding_rate", some "1"), (some "next_funding_ts", some "90")]
  [.add "funding:bybit:BTC-USDT" rate, .add "funding:bybit:BTC-USDT" rate, .read .ok,
    .handle .failed]

theorem failedAck_loses :
    ¬ (final (step wholeNumbers) (start (fun _ => {}) ["funding:bybit:BTC-USDT"] ["arb"])
      failedAck).Complete wholeNumbers := by
  intro h
  let s := final (step wholeNumbers) (start (fun _ => {}) ["funding:bybit:BTC-USDT"] ["arb"])
    failedAck
  have hdelivered : ("funding:bybit:BTC-USDT", 1) ∈ s.delivered := by decide +kernel
  have hwanted : s.Wanted wholeNumbers ("funding:bybit:BTC-USDT", 1) := by decide +kernel
  rcases h.reached _ hdelivered hwanted with hbatch | hrouted
  · exact absurd hbatch (by decide +kernel)
  · exact absurd hrouted (by decide +kernel)

end Bus

end MagnumOpus.Bot
