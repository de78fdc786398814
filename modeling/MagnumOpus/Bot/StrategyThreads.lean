import MagnumOpus.Lib.EventMachine
import MagnumOpus.Lib.KeyedSum

/-! # The threads of the strategies

`FileWatcher` in `registry.py`, one statement after the other.  Three kinds of actors change its
tables and those of the bus: the rescan loop (which also makes the initial scan) and the watchdog
are tasks of the main loop and take turns where they wait; `stop_all` is called from other threads
too, at any time and more than once.

* **Steps.** Each method is a function of a stage that makes one step (`loadNew`, `unload`,
  `handleCrash`, `stopAll`); an actor is the stage it has come to and what it has left to do.
* **The hope.** `Right`: the names of running threads are different, a running thread that no actor
  is just starting or stopping is tracked and has its handle on the bus, and a failed load has left
  nothing behind.
* **When it holds.** Along every run whose steps are `Safe` (`ThreadTracking`): a load raises before
  it has started its thread, the watchdog takes out dead strategies only, no `stop_all` is in the
  middle of a strategy that is started again, and none takes the handle of its successor.

Files, metrics and what the strategies do are left out. -/

namespace MagnumOpus.Bot.StrategyThreads

open EventMachine KeyedSum

/-! ### Tables -/

structure StrategyThread where
  name : String
  alive : Bool := true
  stopEvent : Bool := false

/-- The thread runs and has not been told to stop. -/
def StrategyThread.Running (th : StrategyThread) : Prop := th.alive = true ∧ th.stopEvent = false

instance (th : StrategyThread) : Decidable th.Running :=
  inferInstanceAs (Decidable (th.alive = true ∧ th.stopEvent = false))

/-- What the actors share.  Threads are known by their position. -/
structure Tables where
  threads : List StrategyThread := []
  loaded : Entries String ℕ := ∅
  pendingRestart : List String := []
  /-- The handles on the bus, by the name of the strategy. -/
  handles : String → Option ℕ := fun _ => none
  /-- The strategies with pub/sub callbacks. -/
  pubsub : String → Option ℕ := fun _ => none
  busStarted : Bool := false
  /-- The threads that loads had started before they failed. -/
  failed : List ℕ := []

/-- How a step of a method ends. -/
inductive Next (α : Type) where
  | goOn (stage : α)
  | done
  | raised

/-- The next stage, when there is one. -/
def Next.stage? {α : Type} : Next α → Option α
  | .goOn stage => some stage
  | _ => none

/-- The step of a method that a step of another one is part of. -/
def Next.map {α β : Type} (f : α → β) : Next α → Next β
  | .goOn stage => .goOn (f stage)
  | .done => .done
  | .raised => .raised

/-- What the environment decides. -/
inductive How where
  | goes
  /-- A branch is not taken. -/
  | skips
  | raises
deriving DecidableEq

namespace Tables

/-! ### Loading -/

/-- The stages of `_load_new`. -/
inductive LoadStage where
  | construct
  | reconcile
  | start
  | provision (i : ℕ)
  | readKeys (i : ℕ)
  | track (i : ℕ)
  | register (i : ℕ)

/-- The handler around `_load_new`. -/
def failLoad (t : Tables) (i : ℕ) : Tables × Next LoadStage :=
  ({ t with failed := i :: t.failed }, .done)

def loadNew (t : Tables) (name : String) (preStart : Bool) (stage : LoadStage) (how : How) :
    Tables × Next LoadStage :=
  match stage with
  | .construct => (t, if how = .raises then .done else .goOn .reconcile)
  | .reconcile => (t, if how = .raises then .done else .goOn .start)
  | .start =>
      if how = .raises then (t, .done)
      else ({ t with threads := t.threads ++ [{ name }] }, .goOn (.provision t.threads.length))
  | .provision i =>
      match how with
      | .raises => t.failLoad i
      -- The strategy asks for no order book.
      | .skips => (t, .goOn (.readKeys i))
      | .goes => ({ t with pubsub := Function.update t.pubsub name (some i) }, .goOn (.readKeys i))
  | .readKeys i => if how = .raises then t.failLoad i else (t, .goOn (.track i))
  | .track i =>
      if how = .raises then t.failLoad i
      else ({ t with loaded := t.loaded.insert name i }, .goOn (.register i))
  | .register i =>
      -- A handle is not registered before the start of a bus that has started.
      if how = .raises ∨ preStart = true ∧ t.busStarted = true then t.failLoad i
      else ({ t with handles := Function.update t.handles name (some i) }, .done)

/-! ### Stopping -/

/-- The stages of `_stop_thread` and of the deregistration after it. -/
inductive StopStage where
  | setEvent (i : ℕ)
  | join
  | deregister

def stopThread (t : Tables) (name : String) (stage : StopStage) (how : How) :
    Tables × Next StopStage :=
  match stage with
  | .setEvent i =>
      ({ t with threads := t.threads.modify i fun th => { th with stopEvent := true } },
        .goOn .join)
  -- A thread cannot wait for itself.
  | .join => (t, if how = .raises then .raised else .goOn .deregister)
  | .deregister => ({ t with handles := Function.update t.handles name none }, .done)

/-- The stages of `_unload`. -/
inductive UnloadStage where
  | check
  | pop
  | deprovision (i : ℕ)
  | stopping (stage : StopStage)

def unload (t : Tables) (name : String) (stage : UnloadStage) (how : How) :
    Tables × Next UnloadStage :=
  match stage with
  | .check => (t, if name ∈ t.loaded then .goOn .pop else .done)
  | .pop =>
      match t.loaded.lookup name with
      | none => (t, .raised)
      | some i => ({ t with loaded := t.loaded.erase name }, .goOn (.deprovision i))
  | .deprovision i =>
      ({ t with pubsub := Function.update t.pubsub name none }, .goOn (.stopping (.setEvent i)))
  | .stopping stage =>
      let r := t.stopThread name stage how
      (r.1, r.2.map .stopping)

/-- The stages of a turn of the loop in `stop_all`. -/
inductive StopAllStage where
  | deprovision
  | pop
  | stopping (stage : StopStage)

def stopAll (t : Tables) (name : String) (stage : StopAllStage) (how : How) :
    Tables × Next StopAllStage :=
  match stage with
  | .deprovision => ({ t with pubsub := Function.update t.pubsub name none }, .goOn .pop)
  | .pop =>
      match t.loaded.lookup name with
      | none => (t, .raised)
      | some i => ({ t with loaded := t.loaded.erase name }, .goOn (.stopping (.setEvent i)))
  | .stopping stage =>
      let r := t.stopThread name stage how
      (r.1, r.2.map .stopping)

/-! ### Crashes -/

/-- The stages of `_handle_crash`. -/
inductive CrashStage where
  | pop
  | deprovision
  | deregister
  | sleep
  | restart
  | load (stage : LoadStage)
  | discard

def handleCrash (t : Tables) (name : String) (stage : CrashStage) (how : How) :
    Tables × Next CrashStage :=
  match stage with
  | .pop =>
      match t.loaded.lookup name with
      | none => (t, .done)
      | some _ =>
          ({ t with
             loaded := t.loaded.erase name
             pendingRestart := name :: t.pendingRestart }, .goOn .deprovision)
  | .deprovision =>
      ({ t with pubsub := Function.update t.pubsub name none }, .goOn .deregister)
  | .deregister => ({ t with handles := Function.update t.handles name none }, .goOn .sleep)
  | .sleep => (t, .goOn .restart)
  -- The file may not be importable any more.
  | .restart => (t, .goOn (if how = .raises then .discard else .load .construct))
  | .load stage =>
      let r := t.loadNew name false stage how
      (r.1, .goOn (r.2.stage?.elim .discard .load))
  | .discard =>
      ({ t with pendingRestart := t.pendingRestart.filter (· ≠ name) }, .done)

/-- The thread has ended, but nobody told it to stop. -/
def hasCrashed (t : Tables) (name : String) : Bool :=
  ((t.loaded.lookup name).bind fun i => t.threads[i]?).any fun th => !th.alive && !th.stopEvent

end Tables

open Tables

/-! ### Actors -/

/-- The method that the rescan loop is in. -/
inductive WatcherCall where
  | load (name : String) (stage : LoadStage)
  /-- A strategy that is reloaded is loaded afterwards. -/
  | unload (name : String) (reload : Bool) (stage : UnloadStage)

structure Watcher where
  current : Option WatcherCall := none
  unloads : List String := []
  loads : List String := []
  /-- The strategies whose files have still to be compared. -/
  compares : List String := []
  /-- It makes the initial scan. -/
  preStart : Bool := false
  /-- No exception has ended the loop. -/
  watching : Bool := true

structure Watchdog where
  current : Option (String × CrashStage) := none
  crashed : List String := []
  watching : Bool := true

/-- A call of `stop_all`. -/
structure Stopper where
  current : Option (String × StopAllStage) := none
  names : List String := []

structure Registry where
  tables : Tables := {}
  watcher : Watcher := {}
  watchdog : Watchdog := {}
  stoppers : ℕ → Stopper := fun _ => {}

/-- What can happen; an actor takes the names in the order in which they are given. -/
inductive RegistryInput where
  | startBus
  /-- The rescan loop wakes up and finds the valid files. -/
  | rescan (names valid : List String)
  /-- The watchdog wakes up. -/
  | detect (names : List String)
  | stopAll (k : ℕ) (names : List String)
  | runWatcher (how : How)
  | runWatchdog (how : How)
  | runStopper (k : ℕ) (how : How)
  /-- The task is cancelled while it waits. -/
  | cancelWatcher
  | cancelWatchdog
  /-- A thread ends. -/
  | exit (i : ℕ)

namespace Watcher

/-- It has returned. -/
def Idle (w : Watcher) : Prop :=
  w.current.isNone = true ∧ w.unloads = [] ∧ w.loads = [] ∧ w.compares = []

instance (w : Watcher) : Decidable w.Idle :=
  inferInstanceAs (Decidable (w.current.isNone = true ∧ _ = _ ∧ _ = _ ∧ _ = _))

/-- It waits for a reconciliation. -/
def waits (w : Watcher) : Bool :=
  match w.current with
  | some (.load _ .reconcile) => true
  | _ => false

/-- The other task of the main loop can run. -/
def Suspended (w : Watcher) : Prop := w.Idle ∨ w.waits = true

instance (w : Watcher) : Decidable w.Suspended :=
  inferInstanceAs (Decidable (w.Idle ∨ w.waits = true))

/-- An exception has ended the loop. -/
def died : Watcher := { watching := false }

end Watcher

namespace Watchdog

def Idle (d : Watchdog) : Prop := d.current.isNone = true ∧ d.crashed = []

instance (d : Watchdog) : Decidable d.Idle :=
  inferInstanceAs (Decidable (d.current.isNone = true ∧ _ = _))

/-- It waits before a restart, or for a reconciliation. -/
def waits (d : Watchdog) : Bool :=
  match d.current with
  | some (_, .sleep) => true
  | some (_, .load .reconcile) => true
  | _ => false

def Suspended (d : Watchdog) : Prop := d.Idle ∨ d.waits = true

instance (d : Watchdog) : Decidable d.Suspended :=
  inferInstanceAs (Decidable (d.Idle ∨ d.waits = true))

end Watchdog

def Stopper.Idle (c : Stopper) : Prop := c.current.isNone = true ∧ c.names = []

instance (c : Stopper) : Decidable c.Idle :=
  inferInstanceAs (Decidable (c.current.isNone = true ∧ _ = _))

namespace Registry

/-- The names of the valid files of the initial scan; a scan finds a name once. -/
def start (names : List String) : Registry :=
  { watcher := { loads := names.dedup, preStart := true } }

/-- The rescan loop is in `_load_new`. -/
def watchLoad (s : Registry) (name : String) (stage : LoadStage) (how : How) : Registry :=
  let r := s.tables.loadNew name s.watcher.preStart stage how
  { s with
    tables := r.1
    watcher := { s.watcher with current := r.2.stage?.map (.load name) } }

/-- The rescan loop is in `_unload`; what is raised there ends it. -/
def watchUnload (s : Registry) (name : String) (reload : Bool) (stage : UnloadStage) (how : How) :
    Registry :=
  let r := s.tables.unload name stage how
  match r.2 with
  | .goOn stage' =>
      { s with
        tables := r.1
        watcher := { s.watcher with current := some (.unload name reload stage') } }
  | .done =>
      { s with
        tables := r.1
        watcher := { s.watcher with current := if reload then some (.load name .construct) else none } }
  | .raised => { s with tables := r.1, watcher := .died }

/-- The rescan loop comes to the next name. -/
def watchNext (s : Registry) (how : How) : Registry :=
  let w := s.watcher
  match w.unloads, w.loads, w.compares with
  | name :: unloads, _, _ =>
      { s with watcher := { w with current := some (.unload name false .check), unloads } }
  | [], name :: loads, _ =>
      { s with watcher := { w with current := some (.load name .construct), loads } }
  | [], [], name :: compares =>
      -- The entry may have been taken out in the meantime.
      if name ∉ s.tables.loaded then { s with watcher := .died }
      else if how = .skips then { s with watcher := { w with compares } }
      else { s with watcher := { w with current := some (.unload name true .check), compares } }
  | [], [], [] => s

def runWatcher (s : Registry) (how : How) : Registry :=
  match s.watcher.current with
  | some (.load name stage) => s.watchLoad name stage how
  | some (.unload name reload stage) => s.watchUnload name reload stage how
  | none => s.watchNext how

def runWatchdog (s : Registry) (how : How) : Registry :=
  match s.watchdog.current with
  | some (name, stage) =>
      let r := s.tables.handleCrash name stage how
      { s with
        tables := r.1
        watchdog := { s.watchdog with current := r.2.stage?.map (Prod.mk name) } }
  | none =>
      match s.watchdog.crashed with
      | [] => s
      | name :: crashed =>
          { s with watchdog := { s.watchdog with current := some (name, .pop), crashed } }

def setStopper (s : Registry) (k : ℕ) (c : Stopper) : Registry :=
  { s with stoppers := Function.update s.stoppers k c }

def runStopper (s : Registry) (k : ℕ) (how : How) : Registry :=
  match (s.stoppers k).current with
  | some (name, stage) =>
      let r := s.tables.stopAll name stage how
      { s with tables := r.1 }.setStopper k <|
        match r.2 with
        | .goOn stage' => { s.stoppers k with current := some (name, stage') }
        | .done => { s.stoppers k with current := none }
        | .raised => {}
  | none =>
      match (s.stoppers k).names with
      | [] => s
      | name :: names => s.setStopper k { current := some (name, .deprovision), names }

/-- The watchdog discards a restart also when its wait is cancelled. -/
def cancelWatchdog (s : Registry) : Registry :=
  { s with watchdog := {
      current := s.watchdog.current.map fun c => (c.1, .discard)
      watching := false } }

/-- What a rescan has to do. -/
def rescan (s : Registry) (names valid : List String) : Watcher where
  unloads := names.filter fun name => name ∈ s.tables.loaded ∧ name ∉ valid
  loads := names.filter fun name =>
    name ∈ valid ∧ name ∉ s.tables.loaded ∧ name ∉ s.tables.pendingRestart
  compares := names.filter fun name => name ∈ valid ∧ name ∈ s.tables.loaded

def step : Step Registry RegistryInput Empty := fun s e =>
  match e with
  | .startBus =>
      (if s.watcher.Idle then { s with tables := { s.tables with busStarted := true } } else s, [])
  | .rescan names valid =>
      (if s.tables.busStarted = true ∧ s.watcher.watching = true ∧ s.watcher.Idle ∧
          s.watchdog.Suspended ∧ names.Nodup ∧ s.tables.loaded.keys ++ valid ⊆ names then
        { s with watcher := s.rescan names valid }
      else s, [])
  | .detect names =>
      (if s.tables.busStarted = true ∧ s.watchdog.watching = true ∧ s.watchdog.Idle ∧
          s.watcher.Suspended ∧ names.Nodup ∧ s.tables.loaded.keys ⊆ names then
        { s with watchdog := { crashed := names.filter s.tables.hasCrashed } }
      else s, [])
  | .stopAll k names =>
      (if (s.stoppers k).Idle ∧ names.Perm s.tables.loaded.keys then s.setStopper k { names }
      else s, [])
  | .runWatcher how => (if s.watchdog.Suspended then s.runWatcher how else s, [])
  | .runWatchdog how => (if s.watcher.Suspended then s.runWatchdog how else s, [])
  | .runStopper k how => (s.runStopper k how, [])
  | .cancelWatcher =>
      (if s.watcher.Suspended ∧ s.watchdog.Suspended then { s with watcher := .died } else s, [])
  | .cancelWatchdog =>
      (if s.watcher.Suspended ∧ s.watchdog.Suspended then s.cancelWatchdog else s, [])
  | .exit i =>
      ({ s with tables := { s.tables with
          threads := s.tables.threads.modify i fun th => { th with alive := false } } }, [])

end Registry

/-! ### What should hold -/

/-- The thread that a stage has in hand: it is being started or told to stop. -/
def Tables.LoadStage.holds : LoadStage → Option ℕ
  | .provision i => some i
  | .readKeys i => some i
  | .track i => some i
  | .register i => some i
  | _ => none

/-- The step raises. -/
def Tables.LoadStage.Fails (t : Tables) (preStart : Bool) (how : How) : LoadStage → Prop
  | .register _ => how = .raises ∨ preStart = true ∧ t.busStarted = true
  | _ => how = .raises

def Tables.StopStage.holds : StopStage → Option ℕ
  | .setEvent i => some i
  | _ => none

def Tables.UnloadStage.holds : UnloadStage → Option ℕ
  | .deprovision i => some i
  | .stopping stage => stage.holds
  | _ => none

def Tables.StopAllStage.holds : StopAllStage → Option ℕ
  | .stopping stage => stage.holds
  | _ => none

def Tables.CrashStage.holds : CrashStage → Option ℕ
  | .load stage => stage.holds
  | _ => none

def Watcher.Holds (w : Watcher) (name : String) (i : ℕ) : Prop :=
  match w.current with
  | some (.load name' stage) => name = name' ∧ stage.holds = some i
  | some (.unload name' _ stage) => name = name' ∧ stage.holds = some i
  | none => False

def Watchdog.Holds (d : Watchdog) (name : String) (i : ℕ) : Prop :=
  match d.current with
  | some (name', stage) => name = name' ∧ stage.holds = some i
  | none => False

def Stopper.Holds (c : Stopper) (name : String) (i : ℕ) : Prop :=
  match c.current with
  | some (name', stage) => name = name' ∧ stage.holds = some i
  | none => False

namespace Tables

/-- The thread of the name runs. -/
def Runs (t : Tables) (name : String) (i : ℕ) : Prop :=
  ∃ th, t.threads[i]? = some th ∧ th.Running ∧ th.name = name

/-- Nothing is left of a thread. -/
structure Clean (t : Tables) (i : ℕ) : Prop where
  ended : ∀ name, ¬ t.Runs name i
  deprovisioned : ∀ name, t.pubsub name ≠ some i

/-- The thread is tracked, and its handle is on the bus. -/
structure Tracked (t : Tables) (name : String) (i : ℕ) : Prop where
  loaded : t.loaded.lookup name = some i
  registered : t.handles name = some i

/-- No two running threads have one name. -/
def One (t : Tables) : Prop := ∀ name i j, t.Runs name i → t.Runs name j → i = j

end Tables

namespace Registry

/-- An actor is just starting or stopping the thread. -/
def InHand (s : Registry) (name : String) (i : ℕ) : Prop :=
  s.watcher.Holds name i ∨ s.watchdog.Holds name i ∨ ∃ k, (s.stoppers k).Holds name i

structure Right (s : Registry) : Prop where
  one : s.tables.One
  tracked : ∀ name i, s.tables.Runs name i → s.InHand name i ∨ s.tables.Tracked name i
  clean : ∀ i ∈ s.tables.failed, s.tables.Clean i

/-- A load raises when nothing of it is left behind; it starts a thread when no `stop_all` has one
of the name that it has yet to stop. -/
structure LoadSafe (s : Registry) (name : String) (preStart : Bool) (stage : LoadStage)
    (how : How) : Prop where
  leavesNothing : ∀ i ∈ stage.holds, stage.Fails s.tables preStart how → s.tables.Clean i
  notStopping : stage = .start → how ≠ .raises → ∀ k i, (s.stoppers k).Holds name i →
    ¬ s.tables.Runs name i

/-- Besides, the watchdog takes out a strategy whose thread does not run, and no `stop_all` takes
the handle of a running and tracked thread off the bus. -/
def Safe (s : Registry) : RegistryInput → Prop
  | .runWatcher how =>
      match s.watcher.current with
      | some (.load name stage) => s.LoadSafe name s.watcher.preStart stage how
      | _ => True
  | .runWatchdog how =>
      match s.watchdog.current with
      | some (name, .pop) => ∀ i ∈ s.tables.loaded.lookup name, ¬ s.tables.Runs name i
      | some (name, .load stage) => s.LoadSafe name false stage how
      | _ => True
  | .runStopper k _ =>
      match (s.stoppers k).current with
      | some (name, .stopping .deregister) =>
          ∀ i, s.tables.Runs name i → ¬ s.tables.Tracked name i
      | _ => True
  | _ => True

end Registry

end MagnumOpus.Bot.StrategyThreads
