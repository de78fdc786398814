import MagnumOpus.Lib.EventMachine
import MagnumOpus.Bot.EventBus
import MagnumOpus.Bot.GapGating

/-! # The stream keys of the first scan

`FileWatcher.initial_scan` and `_load_new` in `registry.py`: the main loop loads one strategy file
after the other.  It starts the thread of a strategy, which then calls `subscribe()`, and goes on
without waiting for it: it reads the tables that `subscribe()` fills, and the streams of what it
finds there are all that the bus will read.

* **The hope.** `Complete`: after the scan the bus reads the stream of every handler, managed
  position and funding subscription of every loaded strategy.
* **When it holds.** When whatever `subscribe()` registers is registered before the main loop has
  read the table (`complete_of_safe`).  A handler that comes while the loop is in the middle of its
  table ends the loading with an exception. -/

namespace MagnumOpus.Bot

open EventMachine

/-- What `subscribe()` can register. -/
inductive Registration where
  | bar (symbol tf : String)
  | funding (exchange symbol : String)
deriving DecidableEq

def closeStream (exchange symbol tf : String) : String :=
  "candles:close:" ++ exchange ++ ":" ++ symbol ++ ":" ++ tf

def obStream (exchange symbol : String) : String := "candles:ob:" ++ exchange ++ ":" ++ symbol

def fundingStream (exchange symbol : String) : String := "funding:" ++ exchange ++ ":" ++ symbol

/-- The stream that delivers the events, on the exchange of the service. -/
def Registration.stream (exchange : String) : Registration → String
  | .bar symbol tf => closeStream exchange symbol tf
  | .funding exchange' symbol => fundingStream exchange' symbol

/-- How far the main loop is with a strategy whose thread it has started. -/
inductive LoadStage where
  | started
  /-- It is in its loop over the handlers; how many there were when it began, and how many it has
  seen. -/
  | barHandlers (size seen : ℕ)
  | managedPositions
  | fundingStreamKeys
  | track
  | loaded
  | failed
deriving DecidableEq

/-- The number of tables that it has read: the handlers, the positions, the funding keys; none
counts when the loading has failed. -/
def LoadStage.tablesRead : LoadStage → ℕ
  | .managedPositions => 1
  | .fundingStreamKeys => 2
  | .track => 3
  | .loaded => 3
  | _ => 0

/-- A strategy whose thread has been started. -/
structure LoadedStrategy where
  /-- Found by the reconciliation, before the thread starts. -/
  managedPositions : List String
  barHandlers : List BarKey := []
  fundingStreamKeys : List String := []
  /-- `subscribe()` has returned. -/
  ready : Bool := false
  stage : LoadStage := .started
  /-- The stream keys that the main loop has collected for it. -/
  streamKeys : List String := []

/-- A strategy file, with the positions that the reconciliation will find for it. -/
structure StrategyFile where
  managedPositions : List String

structure InitialScan where
  exchange : String
  /-- The files still to be loaded. -/
  todo : List StrategyFile
  strategies : List LoadedStrategy := []
  streamKeys : List String := []

inductive ScanInput where
  /-- The main loop goes on; what it does may raise. -/
  | main (raises : Bool)
  /-- The thread of a strategy registers something. -/
  | register (i : ℕ) (r : Registration)
  /-- Its `subscribe()` returns. -/
  | subscribed (i : ℕ)

/-- Python's dictionaries and sets keep one entry for each key. -/
def insertKey {α : Type*} [DecidableEq α] (keys : List α) (key : α) : List α :=
  if key ∈ keys then keys else keys ++ [key]

namespace LoadedStrategy

variable (exchange : String)

def register (t : LoadedStrategy) : Registration → LoadedStrategy
  | .bar symbol tf => { t with barHandlers := insertKey t.barHandlers (symbol, tf) }
  | .funding exchange' symbol =>
      { t with fundingStreamKeys := insertKey t.fundingStreamKeys (fundingStream exchange' symbol) }

/-- The main loop goes on with the strategy. -/
def advance (t : LoadedStrategy) : LoadedStrategy :=
  match t.stage with
  | .started => { t with stage := .barHandlers t.barHandlers.length 0 }
  | .barHandlers size seen =>
      -- The iterator of a dictionary that has changed its size raises.
      if t.barHandlers.length ≠ size then { t with stage := .failed }
      else
        match t.barHandlers[seen]? with
        | none => { t with stage := .managedPositions }
        | some (symbol, tf) =>
            { t with
              stage := .barHandlers size (seen + 1)
              streamKeys := t.streamKeys ++
                [closeStream exchange symbol tf, obStream exchange symbol] }
  | .managedPositions =>
      { t with
        stage := .fundingStreamKeys
        streamKeys := t.streamKeys ++ t.managedPositions.flatMap fun symbol =>
          [closeStream exchange symbol "1s", obStream exchange symbol] }
  | .fundingStreamKeys =>
      { t with stage := .track, streamKeys := t.streamKeys ++ t.fundingStreamKeys }
  | .track => { t with stage := .loaded }
  | .loaded => t
  | .failed => t

/-- The main loop is done with it. -/
def Settled (t : LoadedStrategy) : Prop := t.stage = .loaded ∨ t.stage = .failed

instance (t : LoadedStrategy) : Decidable t.Settled :=
  inferInstanceAs (Decidable (t.stage = .loaded ∨ t.stage = .failed))

/-- The streams that the strategy needs. -/
def needed (t : LoadedStrategy) : List String :=
  t.barHandlers.map (fun key => closeStream exchange key.1 key.2) ++
    t.managedPositions.map (fun symbol => closeStream exchange symbol "1s") ++ t.fundingStreamKeys

/-- The main loop has read the table that a registration goes into. -/
def HasRead (t : LoadedStrategy) : Registration → Prop
  | .bar _ _ => 1 ≤ t.stage.tablesRead
  | .funding _ _ => 3 ≤ t.stage.tablesRead

end LoadedStrategy

namespace InitialScan

def modify (s : InitialScan) (i : ℕ) (f : LoadedStrategy → LoadedStrategy) : InitialScan :=
  { s with strategies := s.strategies.modify i f }

/-- Starts with the next file; nothing is left of one that raises before its thread starts. -/
def startNext (s : InitialScan) (raises : Bool) : InitialScan :=
  match s.todo with
  | [] => s
  | file :: todo =>
      if raises then { s with todo }
      else
        { s with
          todo
          strategies := s.strategies ++ [{ managedPositions := file.managedPositions }] }

/-- Goes on with the strategy at hand; its keys join those of the scan when it is loaded. -/
def goOn (s : InitialScan) (t : LoadedStrategy) (raises : Bool) : InitialScan :=
  let i := s.strategies.length - 1
  if raises then s.modify i fun t => { t with stage := .failed }
  else if t.stage = .track then
    { s.modify i (LoadedStrategy.advance s.exchange) with
      streamKeys := s.streamKeys ++ t.streamKeys }
  else s.modify i (LoadedStrategy.advance s.exchange)

def step : Step InitialScan ScanInput Empty := fun s e =>
  match e with
  | .main raises =>
      match s.strategies[s.strategies.length - 1]? with
      | none => (s.startNext raises, [])
      | some t => (if t.Settled then s.startNext raises else s.goOn t raises, [])
  | .register i r => (s.modify i fun t => if t.ready then t else t.register r, [])
  | .subscribed i => (s.modify i fun t => { t with ready := true }, [])

/-- The scan has returned. -/
def Returned (s : InitialScan) : Prop := s.todo = [] ∧ ∀ t ∈ s.strategies, t.Settled

/-- The bus reads the stream of everything that the loaded strategies have registered. -/
def Complete (s : InitialScan) : Prop :=
  s.Returned → ∀ streams handles, ∀ t ∈ s.strategies, t.stage = .loaded →
    t.needed s.exchange ⊆ (Bus.start streams s.streamKeys handles).streamKeys

/-- What is registered goes into a table that has not been read yet, unless its stream is read
anyway. -/
def Safe (s : InitialScan) : ScanInput → Prop
  | .register i r => ∀ t ∈ s.strategies[i]?, t.HasRead r → t.ready = true ∨
      r.stream s.exchange ∈ t.streamKeys ∨ r.stream s.exchange ∈ s.streamKeys
  | _ => True

end InitialScan

/-! ### The invariant -/

theorem mem_insertKey {α : Type*} [DecidableEq α] {keys : List α} {key a : α} :
    a ∈ insertKey keys key ↔ a ∈ keys ∨ a = key := by
  unfold insertKey
  split
  · next hmem =>
      refine ⟨.inl, ?_⟩
      rintro (h | rfl)
      · exact h
      · exact hmem
  · rw [List.mem_append, List.mem_singleton]

theorem take_insertKey {α : Type*} [DecidableEq α] {keys : List α} {n : ℕ} (h : n ≤ keys.length)
    (key : α) : (insertKey keys key).take n = keys.take n ∧ n ≤ (insertKey keys key).length := by
  unfold insertKey
  split
  · exact ⟨rfl, h⟩
  · refine ⟨List.take_append_of_le_length h, ?_⟩
    rw [List.length_append]
    exact h.trans (Nat.le_add_right _ _)

namespace LoadedStrategy

/-- What has been read of the tables is among the keys of the strategy or those of the scan. -/
structure Inv (exchange : String) (keys : List String) (t : LoadedStrategy) : Prop where
  seen : ∀ size seen, t.stage = .barHandlers size seen → seen ≤ t.barHandlers.length ∧
    ∀ key ∈ t.barHandlers.take seen, closeStream exchange key.1 key.2 ∈ t.streamKeys
  bars : 1 ≤ t.stage.tablesRead → ∀ key ∈ t.barHandlers,
    closeStream exchange key.1 key.2 ∈ t.streamKeys ∨ closeStream exchange key.1 key.2 ∈ keys
  managed : 2 ≤ t.stage.tablesRead → ∀ symbol ∈ t.managedPositions,
    closeStream exchange symbol "1s" ∈ t.streamKeys
  funding : 3 ≤ t.stage.tablesRead → ∀ key ∈ t.fundingStreamKeys, key ∈ t.streamKeys ∨ key ∈ keys
  loaded : t.stage = .loaded → t.streamKeys ⊆ keys

variable {exchange : String} {keys keys' : List String} {t : LoadedStrategy}

theorem Inv.mono (h : Inv exchange keys t) (hkeys : keys ⊆ keys') : Inv exchange keys' t where
  seen := h.seen
  bars hread key hkey := (h.bars hread key hkey).imp id fun hmem => hkeys hmem
  managed := h.managed
  funding hread key hkey := (h.funding hread key hkey).imp id fun hmem => hkeys hmem
  loaded hloaded := fun _ hmem => hkeys (h.loaded hloaded hmem)

theorem inv_started (managedPositions : List String) : Inv exchange keys { managedPositions } where
  seen _ _ hstage := by cases hstage
  bars hread := absurd hread (by simp [LoadStage.tablesRead])
  managed hread := absurd hread (by simp [LoadStage.tablesRead])
  funding hread := absurd hread (by simp [LoadStage.tablesRead])
  loaded hloaded := by cases hloaded

theorem inv_failed (t : LoadedStrategy) : Inv exchange keys { t with stage := .failed } where
  seen _ _ hstage := by cases hstage
  bars hread := absurd hread (by simp [LoadStage.tablesRead])
  managed hread := absurd hread (by simp [LoadStage.tablesRead])
  funding hread := absurd hread (by simp [LoadStage.tablesRead])
  loaded hloaded := by cases hloaded

theorem Inv.subscribed (h : Inv exchange keys t) : Inv exchange keys { t with ready := true } :=
  ⟨h.seen, h.bars, h.managed, h.funding, h.loaded⟩

theorem Inv.register {r : Registration} (h : Inv exchange keys t)
    (hsafe : t.HasRead r → r.stream exchange ∈ t.streamKeys ∨ r.stream exchange ∈ keys) :
    Inv exchange keys (t.register r) := by
  cases r with
  | bar symbol tf =>
      refine ⟨?_, ?_, h.managed, h.funding, h.loaded⟩
      · intro size seen hstage
        obtain ⟨hle, hseen⟩ := h.seen size seen hstage
        obtain ⟨htake, hle'⟩ := take_insertKey hle (symbol, tf)
        refine ⟨hle', ?_⟩
        show ∀ key ∈ (insertKey t.barHandlers (symbol, tf)).take seen, _
        rw [htake]
        exact hseen
      · intro hread key hkey
        rcases mem_insertKey.mp hkey with hkey | rfl
        · exact h.bars hread key hkey
        · exact hsafe hread
  | funding exchange' symbol =>
      refine ⟨h.seen, h.bars, h.managed, ?_, h.loaded⟩
      intro hread key hkey
      rcases mem_insertKey.mp hkey with hkey | rfl
      · exact h.funding hread key hkey
      · exact hsafe hread

/-- The main loop goes on; when it is done, the keys of the strategy are among those of the scan. -/
theorem Inv.advance (h : Inv exchange keys t) (htrack : t.stage = .track → t.streamKeys ⊆ keys) :
    Inv exchange keys (t.advance exchange) := by
  unfold LoadedStrategy.advance
  cases hstage : t.stage with
  | started =>
      refine ⟨?_, ?_, ?_, ?_, ?_⟩
      · intro size seen heq
        cases heq
        exact ⟨Nat.zero_le _, fun key hkey => absurd hkey (by simp)⟩
      · exact fun hread => absurd hread (by simp [LoadStage.tablesRead])
      · exact fun hread => absurd hread (by simp [LoadStage.tablesRead])
      · exact fun hread => absurd hread (by simp [LoadStage.tablesRead])
      · exact fun hloaded => by cases hloaded
  | barHandlers size seen =>
      obtain ⟨hle, hseen⟩ := h.seen size seen hstage
      dsimp only
      by_cases hsize : t.barHandlers.length = size
      · rw [if_neg (not_not.mpr hsize)]
        cases hkey : t.barHandlers[seen]? with
        | none =>
            -- The loop has come to the end of the table.
            have hall : t.barHandlers.take seen = t.barHandlers :=
              List.take_of_length_le (List.getElem?_eq_none_iff.mp hkey)
            rw [hall] at hseen
            refine ⟨?_, ?_, ?_, ?_, ?_⟩
            · exact fun _ _ heq => by cases heq
            · exact fun _ key hmem => .inl (hseen key hmem)
            · exact fun hread => absurd hread (by simp [LoadStage.tablesRead])
            · exact fun hread => absurd hread (by simp [LoadStage.tablesRead])
            · exact fun hloaded => by cases hloaded
        | some key =>
            obtain ⟨hlt, hget⟩ := List.getElem?_eq_some_iff.mp hkey
            refine ⟨?_, ?_, ?_, ?_, ?_⟩
            · intro size' seen' heq
              cases heq
              refine ⟨hlt, ?_⟩
              intro key' hkey'
              rw [List.take_succ_eq_append_getElem hlt, hget, List.mem_append,
                List.mem_singleton] at hkey'
              rcases hkey' with hkey' | rfl
              · exact List.mem_append_left _ (hseen key' hkey')
              · exact List.mem_append_right _ List.mem_cons_self
            · exact fun hread => absurd hread (by simp [LoadStage.tablesRead])
            · exact fun hread => absurd hread (by simp [LoadStage.tablesRead])
            · exact fun hread => absurd hread (by simp [LoadStage.tablesRead])
            · exact fun hloaded => by cases hloaded
      · rw [if_pos hsize]
        exact inv_failed t
  | managedPositions =>
      refine ⟨?_, ?_, ?_, ?_, ?_⟩
      · exact fun _ _ heq => by cases heq
      · intro _ key hkey
        refine (h.bars (by rw [hstage]; decide) key hkey).imp ?_ id
        exact List.mem_append_left _
      · intro _ symbol hsymbol
        refine List.mem_append_right _ (List.mem_flatMap.mpr ⟨symbol, hsymbol, ?_⟩)
        exact List.mem_cons_self
      · exact fun hread => absurd hread (by simp [LoadStage.tablesRead])
      · exact fun hloaded => by cases hloaded
  | fundingStreamKeys =>
      refine ⟨?_, ?_, ?_, ?_, ?_⟩
      · exact fun _ _ heq => by cases heq
      · intro _ key hkey
        refine (h.bars (by rw [hstage]; decide) key hkey).imp ?_ id
        exact List.mem_append_left _
      · intro _ symbol hsymbol
        exact List.mem_append_left _ (h.managed (by rw [hstage]; decide) symbol hsymbol)
      · exact fun _ key hkey => .inl (List.mem_append_right _ hkey)
      · exact fun hloaded => by cases hloaded
  | track =>
      refine ⟨?_, ?_, ?_, ?_, ?_⟩
      · exact fun _ _ heq => by cases heq
      · exact fun _ => h.bars (by rw [hstage]; decide)
      · exact fun _ => h.managed (by rw [hstage]; decide)
      · exact fun _ => h.funding (by rw [hstage]; decide)
      · exact fun _ => htrack hstage
  | loaded => exact h
  | failed => exact h

theorem Inv.needed (h : Inv exchange keys t) (hloaded : t.stage = .loaded) :
    t.needed exchange ⊆ keys := by
  have hread : t.stage.tablesRead = 3 := by rw [hloaded]; rfl
  have hkeys := h.loaded hloaded
  intro key hkey
  rcases List.mem_append.mp hkey with hkey | hkey
  · rcases List.mem_append.mp hkey with hkey | hkey
    · obtain ⟨bar, hbar, rfl⟩ := List.mem_map.mp hkey
      exact (h.bars (by omega) bar hbar).elim (fun hmem => hkeys hmem) id
    · obtain ⟨symbol, hsymbol, rfl⟩ := List.mem_map.mp hkey
      exact hkeys (h.managed (by omega) symbol hsymbol)
  · exact (h.funding (by omega) key hkey).elim (fun hmem => hkeys hmem) id

end LoadedStrategy

namespace InitialScan

def Inv (s : InitialScan) : Prop := ∀ t ∈ s.strategies, t.Inv s.exchange s.streamKeys

variable {s : InitialScan}

theorem Inv.modify (h : Inv s) {i : ℕ} {f : LoadedStrategy → LoadedStrategy}
    (hf : ∀ t ∈ s.strategies[i]?, t.Inv s.exchange s.streamKeys →
      (f t).Inv s.exchange s.streamKeys) : Inv (s.modify i f) := by
  intro t ht
  obtain ⟨j, hj⟩ := List.mem_iff_getElem?.mp ht
  rw [InitialScan.modify, List.getElem?_modify] at hj
  split at hj
  · next hij =>
      subst hij
      obtain ⟨t', ht', rfl⟩ := Option.map_eq_some_iff.mp hj
      exact hf t' ht' (h t' (List.mem_of_getElem? ht'))
  · obtain ⟨t', ht', rfl⟩ := Option.map_eq_some_iff.mp hj
    exact h _ (List.mem_of_getElem? ht')

theorem Inv.startNext (h : Inv s) (raises : Bool) : Inv (s.startNext raises) := by
  unfold InitialScan.startNext
  cases s.todo with
  | nil => exact h
  | cons file todo =>
      cases raises with
      | true => exact h
      | false =>
          intro t ht
          rcases List.mem_append.mp ht with ht | ht
          · exact h t ht
          · rw [List.mem_singleton.mp ht]
            exact LoadedStrategy.inv_started _

theorem Inv.goOn {t : LoadedStrategy} (h : Inv s)
    (ht : s.strategies[s.strategies.length - 1]? = some t) (raises : Bool) :
    Inv (s.goOn t raises) := by
  unfold InitialScan.goOn
  cases raises with
  | true => exact h.modify fun t _ _ => LoadedStrategy.inv_failed t
  | false =>
      simp only [Bool.false_eq_true, if_false]
      by_cases hstage : t.stage = .track
      · rw [if_pos hstage]
        have hgrown : Inv { s with streamKeys := s.streamKeys ++ t.streamKeys } :=
          fun t' ht' => (h t' ht').mono (List.subset_append_left _ _)
        refine hgrown.modify ?_
        intro t' ht' hinv
        rw [Option.mem_def, ht, Option.some_inj] at ht'
        subst ht'
        exact hinv.advance fun _ => List.subset_append_right _ _
      · rw [if_neg hstage]
        refine h.modify ?_
        intro t' ht' hinv
        rw [Option.mem_def, ht, Option.some_inj] at ht'
        subst ht'
        exact hinv.advance fun htrack => absurd htrack hstage

theorem Inv.step (h : Inv s) (e : ScanInput) (hsafe : s.Safe e) : Inv (step s e).1 := by
  cases e with
  | main raises =>
      simp only [InitialScan.step]
      cases ht : s.strategies[s.strategies.length - 1]? with
      | none => exact h.startNext raises
      | some t =>
          dsimp only
          split
          · exact h.startNext raises
          · exact h.goOn ht raises
  | register i r =>
      refine h.modify ?_
      intro t ht hinv
      by_cases hready : t.ready = true
      · rw [if_pos hready]
        exact hinv
      · rw [if_neg hready]
        exact hinv.register fun hread => (hsafe t ht hread).resolve_left hready
  | subscribed i => exact h.modify fun _ _ hinv => hinv.subscribed

theorem mem_addStream {keys : List String} {key key' : String} :
    key' ∈ Bus.addStream keys key ↔ key' ∈ keys ∨ key' = key := by
  unfold Bus.addStream
  split
  · next hmem =>
      refine ⟨.inl, ?_⟩
      rintro (h | rfl)
      · exact h
      · exact hmem
  · rw [List.mem_append, List.mem_singleton]

/-- The bus reads all streams that it is given. -/
theorem mem_streamKeys_start {streams : String → ConsumerGroup.Stream RawEntry}
    {keys handles : List String} {key : String} (h : key ∈ keys) :
    key ∈ (Bus.start streams keys handles).streamKeys := by
  have hfold : ∀ acc, key ∈ acc ∨ key ∈ keys → key ∈ keys.foldl Bus.addStream acc := by
    clear h
    induction keys with
    | nil => exact fun acc hmem => hmem.resolve_right List.not_mem_nil
    | cons k keys ih =>
        intro acc hmem
        refine ih _ ?_
        rw [mem_addStream]
        rcases hmem with hmem | hmem
        · exact .inl (.inl hmem)
        · exact (List.mem_cons.mp hmem).imp .inr id
  exact hfold [] (.inr h)

/-- In every run in which whatever `subscribe()` registers comes before its table has been read, or
has its stream read anyway, the bus reads what the loaded strategies need. -/
theorem complete_of_safe (exchange : String) (files : List StrategyFile) (es : List ScanInput)
    (hsafe : Along step Safe { exchange, todo := files } es) :
    (final step { exchange, todo := files } es).Complete := by
  have hinv : Inv (final step { exchange, todo := files } es) :=
    final_invariant_along (I := Inv) (fun s e h hok => h.step e hok) es
      (fun t ht => absurd ht List.not_mem_nil) hsafe
  intro _ streams handles t ht hloaded key hkey
  exact mem_streamKeys_start ((hinv t ht).needed hloaded hkey)

/-- Enough turns of the main loop to load a strategy with at most one handler. -/
def loadInputs : List ScanInput := List.replicate 6 (.main false)

/-- The strategy subscribes first. -/
def subscribesFirst : List ScanInput :=
  [.main false, .register 0 (.bar "BTC-USDT" "1m"), .register 0 (.funding "kucoin" "XBTUSDM"),
    .subscribed 0] ++ loadInputs

theorem complete_subscribesFirst :
    (final step { exchange := "kucoin", todo := [⟨["ETH-USDT"]⟩] } subscribesFirst).Complete := by
  refine complete_of_safe "kucoin" [⟨["ETH-USDT"]⟩] subscribesFirst ?_
  refine ⟨trivial, ?_, ?_, trivial, trivial, trivial, trivial, trivial, trivial, trivial, trivial⟩
  · intro t ht hread
    cases ht
    exact absurd hread (show ¬ 1 ≤ 0 by decide)
  · intro t ht hread
    cases ht
    exact absurd hread (show ¬ 3 ≤ 0 by decide)

/-- The thread of the strategy comes to its `subscribe()` when the main loop is done. -/
def subscribesLate : List ScanInput := loadInputs ++ [.register 0 (.bar "BTC-USDT" "1m")]

/-- Its handler waits for a stream that the bus does not read. -/
theorem subscribesLate_starves :
    ¬ (final step { exchange := "kucoin", todo := [⟨[]⟩] } subscribesLate).Complete := by
  intro h
  have hreturned :
      (final step { exchange := "kucoin", todo := [⟨[]⟩] } subscribesLate).Returned := by
    refine ⟨rfl, ?_⟩
    intro t ht
    cases List.mem_singleton.mp ht
    exact .inl rfl
  exact absurd (h hreturned (fun _ => {}) [] _ (List.mem_singleton.mpr rfl) rfl List.mem_cons_self)
    List.not_mem_nil

end InitialScan

end MagnumOpus.Bot
