import MagnumOpus.Bot.OrderWorkerSteps

/-! # The strategies of the bot service

Each strategy runs in a thread of its own with its order worker.  The `FileWatcher`
(`registry.py`) loads, unloads and restarts strategies from the main thread; the
`DailyLossCircuitBreaker` (`circuit_breaker.py`) is shared by all of them.

* **Instances.** A strategy that is loaded again is a new instance; the old one runs on until its
  thread ends.
* **The trip.** The fill that trips the breaker calls `stop_all` on the thread of its strategy.
  `stop_all` waits for one thread after the other, so other threads go on in between; the waits
  have a timeout and end in any case.
* **Rescans.** A rescan is a list of loads and unloads (`rescan`); anything may happen between two
  of them.

Files, metrics, the event bus and the reconciliation, of which only the restored worker matters, are
left out. -/

namespace MagnumOpus.Bot

open EventMachine KeyedSum

/-! ### The circuit breaker -/

/-- The daily loss limit of the service. -/
structure CircuitBreaker where
  /-- There is no limit when it is `0`. -/
  limitUsd : ℚ
  dailyPnl : ℚ

namespace CircuitBreaker

def new (limitUsd : ℚ) : CircuitBreaker := ⟨limitUsd, 0⟩

def recordPnl (b : CircuitBreaker) (realizedPnl : ℚ) : CircuitBreaker :=
  { b with dailyPnl := b.dailyPnl + realizedPnl }

/-- The losses of the day exceed the limit. -/
def isTripped (b : CircuitBreaker) : Bool := b.limitUsd ≠ 0 ∧ b.dailyPnl < -|b.limitUsd|

end CircuitBreaker

/-! ### The service -/

/-- A strategy with its thread. -/
structure Instance where
  name : String
  worker : OrderQueueWorker
  /-- The strategy has been told to stop. -/
  stop : Bool
  /-- The thread runs. -/
  alive : Bool

/-- A `stop_all` that a trip has called. -/
structure Callback where
  /-- The instance on whose thread it runs. -/
  thread : ℕ
  /-- The strategies that it has not come to yet. -/
  todo : List String
deriving DecidableEq

structure Service where
  breaker : CircuitBreaker
  /-- All instances so far; they are known by their position. -/
  instances : List Instance
  /-- The loaded strategies by name, the last one first. -/
  loaded : Entries String ℕ
  /-- Crashed strategies that wait to be started again. -/
  pendingRestart : List String
  callbacks : List Callback

/-- Something that happens in the service. -/
inductive ServiceEvent where
  /-- Something happens to the order worker of an instance. -/
  | worker (i : ℕ) (input : Input)
  /-- The callback on the thread of an instance goes on. -/
  | stopNext (i : ℕ)
  /-- A thread ends. -/
  | exit (i : ℕ)
  | unload (name : String)
  /-- A strategy file is loaded; its worker comes from the reconciliation. -/
  | load (name : String) (worker : OrderQueueWorker)
  /-- The watchdog finds the thread of a strategy dead. -/
  | crash (name : String)
  /-- The wait after a crash is over; without a worker the file cannot be imported any more. -/
  | restart (name : String) (worker : Option OrderQueueWorker)

/-- Something the service does. -/
inductive ServiceEffect where
  | order (i : ℕ) (effect : OrderEffect)
  | loaded (name : String)
  /-- A callback has taken a strategy out and told it to stop. -/
  | stopped (name : String)
  | callbackCompleted (i : ℕ)
  | callbackRaised (i : ℕ)
deriving DecidableEq

namespace Service

def new (limitUsd : ℚ) : Service := ⟨.new limitUsd, [], ∅, [], []⟩

/-- The callback on a thread. -/
def callbackOn (s : Service) (i : ℕ) : Option Callback := s.callbacks.find? (·.thread = i)

/-- An instance whose thread runs and is not taken up by a callback. -/
def acting (s : Service) (i : ℕ) : Option Instance :=
  if (s.callbackOn i).isSome then none else s.instances[i]?.filter (·.alive)

def setInstance (s : Service) (i : ℕ) (inst : Instance) : Service :=
  { s with instances := s.instances.set i inst }

/-- Tells an instance to stop. -/
def tellToStop (s : Service) (i : ℕ) : Service :=
  { s with instances := s.instances.modify i fun inst => { inst with stop := true } }

/-! ### Order workers -/

/-- The loop of a worker reads the stop event of its instance. -/
def heed (inst : Instance) : Input → Input
  | .check _ => .check inst.stop
  | i => i

/-- Records the profits and calls the callback when they trip the breaker. -/
def recordPnls (s : Service) (i : ℕ) : List OrderEffect → Service
  | [] => s
  | .recordPnl pnl :: effects =>
      let recorded := { s with breaker := s.breaker.recordPnl pnl }
      if recorded.breaker.isTripped then
        { recorded with
          instances := recorded.instances.modify i fun inst =>
            { inst with worker := { inst.worker with tripFired := true } }
          callbacks := ⟨i, recorded.loaded.keys.reverse⟩ :: recorded.callbacks }
      else recordPnls recorded i effects
  | _ :: effects => recordPnls s i effects

def stepWorker (s : Service) (i : ℕ) (input : Input) : Service × List ServiceEffect :=
  match s.acting i with
  | none => (s, [])
  | some inst =>
      let r := inst.worker.step (heed inst input)
      ((s.setInstance i { inst with worker := r.1 }).recordPnls i r.2, r.2.map (.order i))

/-! ### The callback -/

def dropCallback (s : Service) (i : ℕ) : Service :=
  { s with callbacks := s.callbacks.filter (·.thread ≠ i) }

/-- One turn of the loop of `stop_all`: the next strategy is taken out, told to stop, and its thread
waited for. -/
def stopNext (s : Service) (i : ℕ) : Service × List ServiceEffect :=
  match s.callbackOn i with
  | none => (s, [])
  | some ⟨_, []⟩ => (s.dropCallback i, [.callbackCompleted i])
  | some ⟨_, name :: rest⟩ =>
      match s.loaded.lookup name with
      -- The key is not there any more.
      | none => (s.dropCallback i, [.callbackRaised i])
      | some j =>
          let told := { s with loaded := s.loaded.erase name }.tellToStop j
          -- A thread cannot wait for itself.
          if j = i then (told.dropCallback i, [.stopped name, .callbackRaised i])
          else
            ({ told with callbacks := ⟨i, rest⟩ :: (told.dropCallback i).callbacks },
              [.stopped name])

/-! ### The file watcher -/

/-- Starts a strategy in a new thread. -/
def loadNew (s : Service) (name : String) (worker : OrderQueueWorker) :
    Service × List ServiceEffect :=
  ({ s with
     instances := s.instances ++ [⟨name, worker, false, true⟩]
     loaded := s.loaded.insert name s.instances.length }, [.loaded name])

def unload (s : Service) (name : String) : Service :=
  match s.loaded.lookup name with
  | none => s
  | some j => { s with loaded := s.loaded.erase name }.tellToStop j

/-- A strategy that has crashed was not told to stop. -/
def hasCrashed (s : Service) (name : String) : Bool :=
  ((s.loaded.lookup name).bind fun j => s.instances[j]?).any fun inst => !inst.alive && !inst.stop

def step : Step Service ServiceEvent ServiceEffect := fun s e =>
  match e with
  | .worker i input => s.stepWorker i input
  | .stopNext i => s.stopNext i
  | .exit i =>
      match s.acting i with
      | none => (s, [])
      | some inst =>
          (s.setInstance i { inst with alive := false, worker := (inst.worker.step .cancel).1 }, [])
  | .unload name => (s.unload name, [])
  | .load name worker =>
      if name ∈ s.loaded ∨ name ∈ s.pendingRestart then (s, []) else s.loadNew name worker
  | .crash name =>
      if s.hasCrashed name then
        ({ s with loaded := s.loaded.erase name, pendingRestart := name :: s.pendingRestart }, [])
      else (s, [])
  | .restart name worker =>
      if name ∈ s.pendingRestart then
        let waited := { s with pendingRestart := s.pendingRestart.filter (· ≠ name) }
        match worker with
        | none => (waited, [])
        | some w => waited.loadNew name w
      else (s, [])

/-- A strategy file that is found by a scan. -/
structure ValidFile where
  className : String
  /-- It is the file that the strategy was loaded from, and has been written since. -/
  modified : Bool
  /-- The worker that it would be loaded with. -/
  worker : OrderQueueWorker

/-- What a rescan does when it finds the files `valid`: removed strategies are unloaded, new ones
loaded and modified ones loaded again. -/
def rescan (s : Service) (valid : List ValidFile) : List ServiceEvent :=
  let currentNames := valid.map ValidFile.className
  (s.loaded.keys.filter (· ∉ currentNames)).map .unload ++
  (valid.filter fun f => f.className ∉ s.loaded ∧ f.className ∉ s.pendingRestart).map
    (fun f => .load f.className f.worker) ++
  (valid.filter fun f => f.className ∈ s.loaded ∧ f.modified).flatMap
    fun f => [.unload f.className, .load f.className f.worker]

end Service

end MagnumOpus.Bot
