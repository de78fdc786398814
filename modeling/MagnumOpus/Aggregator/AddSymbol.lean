import Mathlib.Data.List.Nodup
import Mathlib.Logic.Function.Basic
import MagnumOpus.Lib.EventMachine
import MagnumOpus.Aggregator.Exchange

/-! # Adding a symbol to a running coordinator

`Coordinator.AddSymbol` of `coordinator.go` and the `AddSymbols` of the adapters, for any number of
calls at once: a call looks for the symbol among the entries, subscribes it, appends an entry, hands
it to the fan-out goroutine and starts a worker, and the calls interleave between these steps.

* **The hope.** `Atomic`: no symbol has two entries or two workers, a call that fails leaves nothing
  behind, and a call is refused only for a symbol that is there to stay.
* **Why it fails.** The entries are not looked at again when one is appended, and neither the entry
  nor the symbol of the adapter is taken back when a later step fails.
* **When it holds.** Exactly when the configured symbols differ and every step is `Smooth`
  (`atomic_iff`). -/

namespace MagnumOpus.Aggregator.AddSymbol

open EventMachine

/-- An exchange and a canonical symbol. -/
structure TrackedSymbol where
  exchange : String
  symbol : Symbol
deriving DecidableEq

inductive Adapter where
  | kucoin
  | bybit
deriving DecidableEq

def Adapter.name : Adapter → String
  | .kucoin => "kucoin"
  | .bybit => "bybit"

structure Config where
  exchanges : List Adapter
  /-- The entries that the coordinator is built with. -/
  entries : List TrackedSymbol
  /-- The symbols that the KuCoin adapter is subscribed to. -/
  rawSyms : List String

inductive Error where
  | notRunning
  | notConfigured
  | alreadyTracked
  | subscribeFailed
  /-- The context of the request is done before the fan-out goroutine takes the symbol. -/
  | cancelled
deriving DecidableEq

/-- What a call does next. -/
inductive Phase where
  | checking
  | subscribing
  | sending
  | entering
  | handing
  | launching
  | done
  | failed (err : Error)
deriving DecidableEq

structure Call where
  exchName : String
  rawSym : String
  phase : Phase
  /-- It has appended its symbol to those of the adapter. -/
  tracked : Bool := false
  /-- It has appended an entry. -/
  entered : Bool := false

structure State where
  running : Bool
  entries : List TrackedSymbol
  /-- The symbols whose worker was started. -/
  workers : List TrackedSymbol
  rawSyms : List String
  calls : ℕ → Option Call

inductive Event where
  | call (n : ℕ) (exchName rawSym : String)
  /-- A call takes its next step; whether the requests are written, or the fan-out goroutine takes
  the symbol, when that is what it waits for. -/
  | advance (n : ℕ) (ok : Bool)

/-- How a call returned. -/
abbrev Outcome := ℕ × Except Error Unit

def Call.sym (c : Call) : TrackedSymbol where
  exchange := c.exchName
  symbol := normalize c.exchName c.rawSym

def adapter (cfg : Config) (exchName : String) : Option Adapter :=
  cfg.exchanges.find? fun a => a.name = exchName

def setCall (s : State) (n : ℕ) (c : Call) : State :=
  { s with calls := Function.update s.calls n (some c) }

def goto (s : State) (n : ℕ) (c : Call) (phase : Phase) : State × List Outcome :=
  (setCall s n { c with phase }, [])

def fail (s : State) (n : ℕ) (c : Call) (err : Error) : State × List Outcome :=
  (setCall s n { c with phase := .failed err }, [(n, .error err)])

/-- `AddSymbols` of the adapter: Bybit has none, and KuCoin appends the symbol, unless it has it,
before it sends the requests. -/
def addSymbols (cfg : Config) (s : State) (n : ℕ) (c : Call) : State × List Outcome :=
  match adapter cfg c.exchName with
  | some .kucoin =>
      if c.rawSym ∈ s.rawSyms then goto s n c .entering
      else
        ({ setCall s n { c with phase := .sending, tracked := true } with
          rawSyms := s.rawSyms ++ [c.rawSym] }, [])
  | _ => fail s n c .subscribeFailed

def advance (cfg : Config) (s : State) (n : ℕ) (c : Call) (ok : Bool) : State × List Outcome :=
  match c.phase with
  | .checking => if c.sym ∈ s.entries then fail s n c .alreadyTracked else goto s n c .subscribing
  | .subscribing => addSymbols cfg s n c
  | .sending => if ok then goto s n c .entering else fail s n c .subscribeFailed
  | .entering =>
      ({ setCall s n { c with phase := .handing, entered := true } with
        entries := s.entries ++ [c.sym] }, [])
  | .handing => if ok then goto s n c .launching else fail s n c .cancelled
  | .launching =>
      ({ setCall s n { c with phase := .done } with workers := s.workers ++ [c.sym] },
        [(n, .ok ())])
  | .done => (s, [])
  | .failed _ => (s, [])

/-- A new call: it fails at once when the coordinator does not run or the exchange is not
configured. -/
def begin (cfg : Config) (s : State) (n : ℕ) (exchName rawSym : String) : State × List Outcome :=
  let c : Call := { exchName, rawSym, phase := .checking }
  if s.running then
    if (adapter cfg exchName).isSome then goto s n c .checking else fail s n c .notConfigured
  else fail s n c .notRunning

def step (cfg : Config) : Step State Event Outcome := fun s e =>
  match e with
  | .call n exchName rawSym =>
      match s.calls n with
      | none => begin cfg s n exchName rawSym
      | some _ => (s, [])
  | .advance n ok =>
      match s.calls n with
      | none => (s, [])
      | some c => advance cfg s n c ok

/-- The coordinator, after `Run` or before it. -/
def start (cfg : Config) (running : Bool) : State where
  running := running
  entries := cfg.entries
  workers := if running then cfg.entries else []
  rawSyms := cfg.rawSyms
  calls := fun _ => none

/-! ### What should hold -/

/-- No symbol has two entries or two workers; a call that failed has left neither an entry nor a
symbol of the adapter; and one that was refused was refused for a configured symbol or one whose own
call does not fail. -/
structure Atomic (cfg : Config) (s : State) : Prop where
  entries : s.entries.Nodup
  workers : s.workers.Nodup
  clean : ∀ n c err, s.calls n = some c → c.phase = .failed err →
    c.tracked = false ∧ c.entered = false
  refused : ∀ n c, s.calls n = some c → c.phase = .failed .alreadyTracked →
    c.sym ∈ cfg.entries ∨ ∃ m d, s.calls m = some d ∧ d.sym = c.sym ∧ d.entered = true ∧
      ∀ err, d.phase ≠ .failed err

/-- The requests are written, the fan-out goroutine takes the symbol, and no other call has entered
the symbol when a call does. -/
def Smooth (s : State) : Event → Prop
  | .call _ _ _ => True
  | .advance n ok => ∀ c, s.calls n = some c →
      (c.phase = .sending → ok = true) ∧ (c.phase = .handing → ok = true) ∧
      (c.phase = .entering → ∀ m d, s.calls m = some d → d.sym = c.sym → d.entered = false)

variable {cfg : Config} {s : State} {n : ℕ} {c : Call}

/-! ### What the lists hold -/

/-- What the phase of a call says about what it has done. -/
def Consistent (c : Call) : Prop :=
  match c.phase with
  | .checking => c.tracked = false ∧ c.entered = false
  | .subscribing => c.tracked = false ∧ c.entered = false
  | .sending => c.tracked = true ∧ c.entered = false
  | .entering => c.entered = false
  | .handing => c.entered = true
  | .launching => c.entered = true
  | .done => c.entered = true
  | .failed _ => True

/-- The call has passed the check and goes on. -/
def Passed (c : Call) : Prop := c.phase ≠ .checking ∧ ∀ err, c.phase ≠ .failed err

structure Inv (cfg : Config) (s : State) : Prop where
  mem_entries : ∀ k, k ∈ s.entries ↔
    k ∈ cfg.entries ∨ ∃ n c, s.calls n = some c ∧ c.entered = true ∧ c.sym = k
  mem_workers : ∀ k ∈ s.workers,
    k ∈ cfg.entries ∨ ∃ n c, s.calls n = some c ∧ c.phase = .done ∧ c.sym = k
  mem_rawSyms : ∀ raw, raw ∈ s.rawSyms ↔
    raw ∈ cfg.rawSyms ∨ ∃ n c, s.calls n = some c ∧ c.tracked = true ∧ c.rawSym = raw
  consistent : ∀ n c, s.calls n = some c → Consistent c
  fresh : ∀ n c, s.calls n = some c → Passed c → c.sym ∉ cfg.entries
  refused : ∀ n c, s.calls n = some c → c.phase = .failed .alreadyTracked → c.sym ∈ s.entries

theorem calls_setCall {m : ℕ} {d : Call} :
    (setCall s n c).calls m = some d ↔ (m = n ∧ d = c) ∨ (m ≠ n ∧ s.calls m = some d) := by
  by_cases hm : m = n
  · subst hm
    simp [setCall, eq_comm]
  · simp [setCall, hm]

/-- What a step of call `n` does: the call becomes `d`, and the lists gain what `d` says that it
has added. -/
structure Update (cfg : Config) (s s' : State) (n : ℕ) (d : Call) : Prop where
  calls : ∀ m e, s'.calls m = some e ↔ (m = n ∧ e = d) ∨ (m ≠ n ∧ s.calls m = some e)
  old : ∀ c, s.calls n = some c → c.sym = d.sym ∧ c.rawSym = d.rawSym ∧
    (c.entered = true → d.entered = true) ∧ (c.tracked = true → d.tracked = true) ∧
    c.phase ≠ .done
  entries : ∀ k, k ∈ s'.entries ↔ k ∈ s.entries ∨ d.entered = true ∧ d.sym = k
  workers : ∀ k ∈ s'.workers, k ∈ s.workers ∨ d.phase = .done ∧ d.sym = k
  rawSyms : ∀ raw, raw ∈ s'.rawSyms ↔ raw ∈ s.rawSyms ∨ d.tracked = true ∧ d.rawSym = raw
  consistent : Consistent d
  fresh : Passed d → d.sym ∉ cfg.entries
  refused : d.phase = .failed .alreadyTracked → d.sym ∈ s.entries

theorem Inv.update {s' : State} {d : Call} (h : Inv cfg s) (u : Update cfg s s' n d) :
    Inv cfg s' where
  mem_entries k := by
    rw [u.entries, h.mem_entries, or_assoc]
    refine or_congr_right ⟨?_, ?_⟩
    · rintro (⟨m, c, hc, hentered, hsym⟩ | ⟨hentered, hsym⟩)
      · by_cases hm : m = n
        · subst hm
          have hold := u.old c hc
          exact ⟨m, d, (u.calls m d).mpr (.inl ⟨rfl, rfl⟩), hold.2.2.1 hentered,
            hold.1.symm.trans hsym⟩
        · exact ⟨m, c, (u.calls m c).mpr (.inr ⟨hm, hc⟩), hentered, hsym⟩
      · exact ⟨n, d, (u.calls n d).mpr (.inl ⟨rfl, rfl⟩), hentered, hsym⟩
    · rintro ⟨m, c, hc, hentered, hsym⟩
      rcases (u.calls m c).mp hc with ⟨rfl, rfl⟩ | ⟨-, hc⟩
      · exact .inr ⟨hentered, hsym⟩
      · exact .inl ⟨m, c, hc, hentered, hsym⟩
  mem_workers k hk := by
    rcases u.workers k hk with hk | ⟨hdone, hsym⟩
    · refine (h.mem_workers k hk).imp_right ?_
      rintro ⟨m, c, hc, hdone, hsym⟩
      have hm : m ≠ n := by
        rintro rfl
        exact (u.old c hc).2.2.2.2 hdone
      exact ⟨m, c, (u.calls m c).mpr (.inr ⟨hm, hc⟩), hdone, hsym⟩
    · exact .inr ⟨n, d, (u.calls n d).mpr (.inl ⟨rfl, rfl⟩), hdone, hsym⟩
  mem_rawSyms raw := by
    rw [u.rawSyms, h.mem_rawSyms, or_assoc]
    refine or_congr_right ⟨?_, ?_⟩
    · rintro (⟨m, c, hc, htracked, hraw⟩ | ⟨htracked, hraw⟩)
      · by_cases hm : m = n
        · subst hm
          have hold := u.old c hc
          exact ⟨m, d, (u.calls m d).mpr (.inl ⟨rfl, rfl⟩), hold.2.2.2.1 htracked,
            hold.2.1.symm.trans hraw⟩
        · exact ⟨m, c, (u.calls m c).mpr (.inr ⟨hm, hc⟩), htracked, hraw⟩
      · exact ⟨n, d, (u.calls n d).mpr (.inl ⟨rfl, rfl⟩), htracked, hraw⟩
    · rintro ⟨m, c, hc, htracked, hraw⟩
      rcases (u.calls m c).mp hc with ⟨rfl, rfl⟩ | ⟨-, hc⟩
      · exact .inr ⟨htracked, hraw⟩
      · exact .inl ⟨m, c, hc, htracked, hraw⟩
  consistent m c hc := by
    rcases (u.calls m c).mp hc with ⟨rfl, rfl⟩ | ⟨-, hc⟩
    · exact u.consistent
    · exact h.consistent m c hc
  fresh m c hc := by
    rcases (u.calls m c).mp hc with ⟨rfl, rfl⟩ | ⟨-, hc⟩
    · exact u.fresh
    · exact h.fresh m c hc
  refused m c hc hphase := by
    rw [u.entries]
    rcases (u.calls m c).mp hc with ⟨rfl, rfl⟩ | ⟨-, hc⟩
    · exact .inl (u.refused hphase)
    · exact .inl (h.refused m c hc hphase)

/-- No two calls have entered the same symbol. -/
def Unique (s : State) : Prop :=
  ∀ m n c d, s.calls m = some c → s.calls n = some d → c.entered = true → d.entered = true →
    c.sym = d.sym → m = n

structure Good (cfg : Config) (s : State) : Prop where
  inv : Inv cfg s
  unique : Unique s
  atomic : Atomic cfg s

/-- A step keeps everything when the lists stay without repetition, a call that fails has left
nothing, and no other call has entered the symbol. -/
theorem Good.update {s' : State} {d : Call} (h : Good cfg s) (u : Update cfg s s' n d)
    (hentries : s'.entries.Nodup) (hworkers : s'.workers.Nodup)
    (hclean : ∀ err, d.phase = .failed err → d.tracked = false ∧ d.entered = false)
    (hunique : d.entered = true → ∀ m e, m ≠ n → s.calls m = some e → e.sym = d.sym →
      e.entered = false) : Good cfg s' := by
  have hinv := h.inv.update u
  have hall : ∀ m c err, s'.calls m = some c → c.phase = .failed err →
      c.tracked = false ∧ c.entered = false := by
    intro m c err hc hphase
    rcases (u.calls m c).mp hc with ⟨rfl, rfl⟩ | ⟨-, hc⟩
    · exact hclean err hphase
    · exact h.atomic.clean m c err hc hphase
  refine ⟨hinv, ?_, ⟨hentries, hworkers, hall, ?_⟩⟩
  · intro m m' c c' hc hc' hentered hentered' hsym
    rcases (u.calls m c).mp hc with ⟨rfl, rfl⟩ | ⟨hm, hc⟩
    · rcases (u.calls m' c').mp hc' with ⟨rfl, rfl⟩ | ⟨hm', hc'⟩
      · rfl
      · rw [hunique hentered m' c' hm' hc' hsym.symm] at hentered'
        exact absurd hentered' Bool.false_ne_true
    · rcases (u.calls m' c').mp hc' with ⟨rfl, rfl⟩ | ⟨hm', hc'⟩
      · rw [hunique hentered' m c hm hc hsym] at hentered
        exact absurd hentered Bool.false_ne_true
      · exact h.unique m m' c c' hc hc' hentered hentered' hsym
  · intro m c hc hphase
    rcases (hinv.mem_entries _).mp (hinv.refused m c hc hphase) with
      hcfg | ⟨m', c', hc', hentered, hsym⟩
    · exact .inl hcfg
    · refine .inr ⟨m', c', hc', hsym, hentered, fun err hphase' => ?_⟩
      rw [(hall m' c' err hc' hphase').2] at hentered
      exact Bool.false_ne_true hentered

/-- Only the phase of a call changes. -/
theorem update_phase (h : Inv cfg s) (hc : s.calls n = some c) {phase : Phase}
    (hdone : c.phase ≠ .done)
    (hconsistent : Consistent { c with phase }) (hfresh : c.sym ∉ cfg.entries ∨
      phase = .checking ∨ ∃ err, phase = .failed err)
    (hrefused : phase = .failed .alreadyTracked → c.sym ∈ s.entries) :
    Update cfg s (setCall s n { c with phase }) n { c with phase } where
  calls m e := calls_setCall
  old c' hc' := by
    obtain rfl : c = c' := Option.some.inj (hc.symm.trans hc')
    exact ⟨rfl, rfl, id, id, hdone⟩
  entries k := by
    refine ⟨.inl, ?_⟩
    rintro (hk | ⟨hentered, hsym⟩)
    · exact hk
    · exact (h.mem_entries k).mpr (.inr ⟨n, c, hc, hentered, hsym⟩)
  workers k hk := .inl hk
  rawSyms raw := by
    refine ⟨.inl, ?_⟩
    rintro (hraw | ⟨htracked, heq⟩)
    · exact hraw
    · exact (h.mem_rawSyms raw).mpr (.inr ⟨n, c, hc, htracked, heq⟩)
  consistent := hconsistent
  fresh hpassed := by
    rcases hfresh with hfresh | hchecking | ⟨err, hfailed⟩
    · exact hfresh
    · exact absurd hchecking hpassed.1
    · exact absurd hfailed (hpassed.2 err)
  refused := hrefused

theorem Good.phase (h : Good cfg s) (hc : s.calls n = some c) {phase : Phase}
    (hdone : c.phase ≠ .done) (hconsistent : Consistent { c with phase })
    (hfresh : c.sym ∉ cfg.entries ∨ phase = .checking ∨ ∃ err, phase = .failed err)
    (hrefused : phase = .failed .alreadyTracked → c.sym ∈ s.entries)
    (hclean : ∀ err, phase = .failed err → c.tracked = false ∧ c.entered = false) :
    Good cfg (setCall s n { c with phase }) := by
  refine h.update (update_phase h.inv hc hdone hconsistent hfresh hrefused) h.atomic.entries
    h.atomic.workers hclean fun hentered m e hm he hsym => ?_
  by_contra hother
  exact hm (h.unique m n e c he hc (Bool.not_eq_false _ ▸ hother) hentered hsym)

/-- A call that passes the check is not configured, and goes on without being so. -/
theorem Good.goto (h : Good cfg s) (hc : s.calls n = some c) (hpassed : Passed c) {phase : Phase}
    (hdone : c.phase ≠ .done) (hconsistent : Consistent { c with phase })
    (hphase : ∀ err, phase ≠ .failed err) : Good cfg (goto s n c phase).1 :=
  h.phase hc hdone hconsistent (.inl (h.inv.fresh n c hc hpassed))
    (fun hfailed => absurd hfailed (hphase _)) fun err hfailed => absurd hfailed (hphase err)

/-- A call that fails with something left behind. -/
theorem not_atomic_fail {err : Error} (hleft : c.tracked = true ∨ c.entered = true) :
    ¬ Atomic cfg (fail s n c err).1 := by
  intro h
  have hclean := h.clean n { c with phase := .failed err } err
    (calls_setCall.mpr (.inl ⟨rfl, rfl⟩)) rfl
  rcases hleft with htracked | hentered
  · exact Bool.false_ne_true (hclean.1.symm.trans htracked)
  · exact Bool.false_ne_true (hclean.2.symm.trans hentered)

theorem Good.fail (h : Good cfg s) (hc : s.calls n = some c) {err : Error} (hdone : c.phase ≠ .done)
    (hclean : c.tracked = false ∧ c.entered = false)
    (hrefused : err = .alreadyTracked → c.sym ∈ s.entries) : Good cfg (fail s n c err).1 :=
  h.phase hc hdone trivial (.inr (.inr ⟨err, rfl⟩))
    (fun hfailed => hrefused (Phase.failed.inj hfailed)) fun _ _ => hclean

/-- A call that is about to enter a symbol meets it among the entries exactly when another call has
entered it. -/
theorem mem_entries_entering (h : Inv cfg s) (hc : s.calls n = some c)
    (hphase : c.phase = .entering) :
    c.sym ∉ s.entries ↔ ∀ m d, s.calls m = some d → d.sym = c.sym → d.entered = false := by
  have hfresh : c.sym ∉ cfg.entries := h.fresh n c hc ⟨by simp [hphase], by simp [hphase]⟩
  rw [h.mem_entries, or_iff_right hfresh]
  constructor
  · intro hnone m d hd hsym
    by_contra hentered
    exact hnone ⟨m, d, hd, by simpa using hentered, hsym⟩
  · rintro hall ⟨m, d, hd, hentered, hsym⟩
    exact Bool.false_ne_true ((hall m d hd hsym).symm.trans hentered)

theorem step_entering (hc : s.calls n = some c) (hphase : c.phase = .entering) (ok : Bool) :
    (step cfg s (.advance n ok)).1 =
      { setCall s n { c with phase := .handing, entered := true } with
        entries := s.entries ++ [c.sym] } := by
  simp [step, hc, advance, hphase]

theorem nodup_append_singleton {l : List TrackedSymbol} {k : TrackedSymbol} (h : l.Nodup) :
    (l ++ [k]).Nodup ↔ k ∉ l := by
  rw [← List.concat_eq_append, List.nodup_concat, and_iff_left h]

theorem good_entering (h : Good cfg s) (hc : s.calls n = some c) (hphase : c.phase = .entering)
    (ok : Bool) (hnew : c.sym ∉ s.entries) : Good cfg (step cfg s (.advance n ok)).1 := by
  rw [step_entering hc hphase]
  refine h.update (n := n) (d := { c with phase := .handing, entered := true }) ?_ ?_
    h.atomic.workers (by simp) fun _ m e hm he hsym =>
      (mem_entries_entering h.inv hc hphase).mp hnew m e he hsym
  · exact
      { calls := fun m e => calls_setCall
        old := by
          intro c' hc'
          obtain rfl : c = c' := Option.some.inj (hc.symm.trans hc')
          exact ⟨rfl, rfl, fun _ => rfl, id, by simp [hphase]⟩
        entries := by
          intro k
          simp only [List.mem_append, List.mem_singleton, true_and]
          exact or_congr_right eq_comm
        workers := fun k hk => .inl hk
        rawSyms := by
          intro raw
          refine ⟨.inl, ?_⟩
          rintro (hraw | ⟨htracked, heq⟩)
          · exact hraw
          · exact (h.inv.mem_rawSyms raw).mpr (.inr ⟨n, c, hc, htracked, heq⟩)
        consistent := rfl
        fresh := fun _ => h.inv.fresh n c hc ⟨by simp [hphase], by simp [hphase]⟩
        refused := by simp }
  · exact (nodup_append_singleton h.atomic.entries).mpr hnew

/-- The symbol of a call that is about to start a worker has none. -/
theorem not_mem_workers (h : Good cfg s) (hc : s.calls n = some c) (hphase : c.phase = .launching) :
    c.sym ∉ s.workers := by
  intro hmem
  have hfresh : c.sym ∉ cfg.entries := h.inv.fresh n c hc ⟨by simp [hphase], by simp [hphase]⟩
  obtain ⟨m, d, hd, hdone, hsym⟩ := (h.inv.mem_workers _ hmem).resolve_left hfresh
  have hentered : c.entered = true := by simpa [Consistent, hphase] using h.inv.consistent n c hc
  have hentered' : d.entered = true := by simpa [Consistent, hdone] using h.inv.consistent m d hd
  obtain rfl := h.unique m n d c hd hc hentered' hentered hsym
  obtain rfl : c = d := Option.some.inj (hc.symm.trans hd)
  rw [hphase] at hdone
  cases hdone

theorem good_launching (h : Good cfg s) (hc : s.calls n = some c) (hphase : c.phase = .launching)
    (ok : Bool) : Good cfg (step cfg s (.advance n ok)).1 := by
  have hstep : (step cfg s (.advance n ok)).1 =
      { setCall s n { c with phase := .done } with workers := s.workers ++ [c.sym] } := by
    simp [step, hc, advance, hphase]
  have hentered : c.entered = true := by simpa [Consistent, hphase] using h.inv.consistent n c hc
  have hfresh : c.sym ∉ cfg.entries := h.inv.fresh n c hc ⟨by simp [hphase], by simp [hphase]⟩
  have hquiet : Update cfg s (setCall s n { c with phase := .done }) n { c with phase := .done } :=
    update_phase h.inv hc (by simp [hphase]) hentered (.inl hfresh) (by simp)
  rw [hstep]
  refine h.update (n := n) (d := { c with phase := .done }) ?_ h.atomic.entries ?_ (by simp)
    fun _ m e hm he hsym => ?_
  · exact
      { calls := hquiet.calls
        old := hquiet.old
        entries := hquiet.entries
        workers := by
          intro k hk
          refine (List.mem_append.mp hk).imp_right fun hk => ⟨rfl, ?_⟩
          exact (List.mem_singleton.mp hk).symm
        rawSyms := hquiet.rawSyms
        consistent := hquiet.consistent
        fresh := hquiet.fresh
        refused := hquiet.refused }
  · exact (nodup_append_singleton h.atomic.workers).mpr (not_mem_workers h hc hphase)
  · by_contra hother
    exact hm (h.unique m n e c he hc (by simpa using hother) hentered hsym)

/-- `AddSymbols` leaves everything as it should be as long as it has not failed to send. -/
theorem good_addSymbols (h : Good cfg s) (hc : s.calls n = some c)
    (hphase : c.phase = .subscribing) :
    Good cfg (addSymbols cfg s n c).1 := by
  have hpassed : Passed c := ⟨by simp [hphase], by simp [hphase]⟩
  have hconsistent : c.tracked = false ∧ c.entered = false := by
    simpa [Consistent, hphase] using h.inv.consistent n c hc
  unfold addSymbols
  split
  · split
    · exact h.goto hc hpassed (by simp [hphase]) hconsistent.2 (by simp)
    · refine h.update (n := n) (d := { c with phase := .sending, tracked := true }) ?_
        h.atomic.entries h.atomic.workers (by simp) fun hentered => ?_
      · exact
          { calls := fun m e => calls_setCall
            old := by
              intro c' hc'
              obtain rfl : c = c' := Option.some.inj (hc.symm.trans hc')
              exact ⟨rfl, rfl, id, fun _ => rfl, by simp [hphase]⟩
            entries := by
              intro k
              simp [setCall, hconsistent.2]
            workers := fun k hk => .inl hk
            rawSyms := by
              intro raw
              simp only [List.mem_append, List.mem_singleton, true_and]
              exact or_congr_right eq_comm
            consistent := ⟨rfl, hconsistent.2⟩
            fresh := fun _ => h.inv.fresh n c hc hpassed
            refused := by simp }
      · exact absurd (hconsistent.2.symm.trans hentered) Bool.false_ne_true
  · exact h.fail hc (by simp [hphase]) hconsistent (by simp)

/-! ### When calls are atomic -/

/-- From a good state, a step of a call leaves an atomic one exactly when it is smooth, and then the
state is good again. -/
theorem atomic_advance (h : Good cfg s) (hc : s.calls n = some c) (ok : Bool) :
    (Atomic cfg (step cfg s (.advance n ok)).1 ↔ Smooth s (.advance n ok)) ∧
      (Smooth s (.advance n ok) → Good cfg (step cfg s (.advance n ok)).1) := by
  have hstep : step cfg s (.advance n ok) = advance cfg s n c ok := by simp [step, hc]
  have hconsistent := h.inv.consistent n c hc
  have hsmooth : Smooth s (.advance n ok) ↔ (c.phase = .sending → ok = true) ∧
      (c.phase = .handing → ok = true) ∧ (c.phase = .entering → c.sym ∉ s.entries) := by
    simp only [Smooth, hc, Option.some.injEq, forall_eq']
    refine and_congr_right fun _ => and_congr_right fun _ => forall_congr' fun hphase => ?_
    exact (mem_entries_entering h.inv hc hphase).symm
  have hgood : Good cfg (step cfg s (.advance n ok)).1 → Smooth s (.advance n ok) →
      (Atomic cfg (step cfg s (.advance n ok)).1 ↔ Smooth s (.advance n ok)) ∧
        (Smooth s (.advance n ok) → Good cfg (step cfg s (.advance n ok)).1) :=
    fun hnext hok => ⟨iff_of_true hnext.atomic hok, fun _ => hnext⟩
  have hbad : ¬ Atomic cfg (step cfg s (.advance n ok)).1 → ¬ Smooth s (.advance n ok) →
      (Atomic cfg (step cfg s (.advance n ok)).1 ↔ Smooth s (.advance n ok)) ∧
        (Smooth s (.advance n ok) → Good cfg (step cfg s (.advance n ok)).1) :=
    fun hnext hok => ⟨iff_of_false hnext hok, fun h => absurd h hok⟩
  rw [hstep] at hgood hbad ⊢
  cases hphase : c.phase with
  | checking =>
      have hclean : c.tracked = false ∧ c.entered = false := by
        simpa [Consistent, hphase] using hconsistent
      refine hgood ?_ (hsmooth.mpr (by simp [hphase]))
      simp only [advance, hphase]
      split
      · next hmem => exact h.fail hc (by simp [hphase]) hclean fun _ => hmem
      · next hmem =>
          have hfresh : c.sym ∉ cfg.entries := fun hcfg =>
            hmem ((h.inv.mem_entries _).mpr (.inl hcfg))
          exact h.phase hc (by simp [hphase]) hclean (.inl hfresh) (by simp) (by simp)
  | subscribing =>
      refine hgood ?_ (hsmooth.mpr (by simp [hphase]))
      simp only [advance, hphase]
      exact good_addSymbols h hc hphase
  | sending =>
      have hleft : c.tracked = true ∧ c.entered = false := by
        simpa [Consistent, hphase] using hconsistent
      cases ok with
      | true =>
          refine hgood ?_ (hsmooth.mpr (by simp [hphase]))
          simp only [advance, hphase]
          exact h.goto hc ⟨by simp [hphase], by simp [hphase]⟩ (by simp [hphase]) hleft.2 (by simp)
      | false =>
          refine hbad ?_ fun hok => Bool.false_ne_true ((hsmooth.mp hok).1 hphase)
          simp only [advance, hphase]
          exact not_atomic_fail (.inl hleft.1)
  | entering =>
      by_cases hnew : c.sym ∈ s.entries
      · refine hbad (fun hatomic => ?_) fun hok => (hsmooth.mp hok).2.2 hphase hnew
        rw [← hstep, step_entering hc hphase] at hatomic
        exact (nodup_append_singleton h.atomic.entries).mp hatomic.entries hnew
      · refine hgood ?_ (hsmooth.mpr ⟨by simp [hphase], by simp [hphase], fun _ => hnew⟩)
        rw [← hstep]
        exact good_entering h hc hphase ok hnew
  | handing =>
      have hentered : c.entered = true := by simpa [Consistent, hphase] using hconsistent
      cases ok with
      | true =>
          refine hgood ?_ (hsmooth.mpr (by simp [hphase]))
          simp only [advance, hphase]
          exact h.goto hc ⟨by simp [hphase], by simp [hphase]⟩ (by simp [hphase]) hentered (by simp)
      | false =>
          refine hbad ?_ fun hok => Bool.false_ne_true ((hsmooth.mp hok).2.1 hphase)
          simp only [advance, hphase]
          exact not_atomic_fail (.inr hentered)
  | launching =>
      refine hgood ?_ (hsmooth.mpr (by simp [hphase]))
      rw [← hstep]
      exact good_launching h hc hphase ok
  | done =>
      refine hgood ?_ (hsmooth.mpr (by simp [hphase]))
      simp only [advance, hphase]
      exact h
  | failed err =>
      refine hgood ?_ (hsmooth.mpr (by simp [hphase]))
      simp only [advance, hphase]
      exact h

/-- A call that has only begun has done nothing yet. -/
theorem good_setCall_new (h : Good cfg s) (hn : s.calls n = none) {d : Call}
    (htracked : d.tracked = false) (hentered : d.entered = false) (hconsistent : Consistent d)
    (hpassed : ¬ Passed d) (hrefused : d.phase ≠ .failed .alreadyTracked) :
    Good cfg (setCall s n d) := by
  refine h.update (n := n) (d := d) ?_ h.atomic.entries h.atomic.workers
    (fun _ _ => ⟨htracked, hentered⟩) fun hyes => ?_
  · exact
      { calls := fun m e => calls_setCall
        old := by
          intro c hc
          rw [hn] at hc
          cases hc
        entries := by
          intro k
          simp [setCall, hentered]
        workers := fun k hk => .inl hk
        rawSyms := by
          intro raw
          simp [setCall, htracked]
        consistent := hconsistent
        fresh := fun hyes => absurd hyes hpassed
        refused := fun hyes => absurd hyes hrefused }
  · exact absurd (hentered.symm.trans hyes) Bool.false_ne_true

theorem good_begin (h : Good cfg s) (hn : s.calls n = none) (exchName rawSym : String) :
    Good cfg (begin cfg s n exchName rawSym).1 := by
  unfold begin
  dsimp only
  split
  · split
    · exact good_setCall_new h hn rfl rfl ⟨rfl, rfl⟩ (fun hyes => hyes.1 rfl) (by simp)
    · exact good_setCall_new h hn rfl rfl trivial (fun hyes => hyes.2 _ rfl) (by simp)
  · exact good_setCall_new h hn rfl rfl trivial (fun hyes => hyes.2 _ rfl) (by simp)

theorem atomic_step (h : Good cfg s) (e : Event) :
    (Atomic cfg (step cfg s e).1 ↔ Smooth s e) ∧ (Smooth s e → Good cfg (step cfg s e).1) := by
  cases e with
  | call n exchName rawSym =>
      have hnext : Good cfg (step cfg s (.call n exchName rawSym)).1 := by
        unfold step
        dsimp only
        split
        · next hn => exact good_begin h hn exchName rawSym
        · exact h
      exact ⟨iff_of_true hnext.atomic trivial, fun _ => hnext⟩
  | advance n ok =>
      cases hc : s.calls n with
      | none =>
          have hstep : step cfg s (.advance n ok) = (s, []) := by simp [step, hc]
          have hsmooth : Smooth s (.advance n ok) := by simp [Smooth, hc]
          rw [hstep]
          exact ⟨iff_of_true h.atomic hsmooth, fun _ => h⟩
      | some c => exact atomic_advance h hc ok

theorem good_start (running : Bool) (hcfg : cfg.entries.Nodup) : Good cfg (start cfg running) where
  inv :=
    { mem_entries := by simp [start]
      mem_workers := by
        intro k hk
        refine .inl ?_
        cases running with
        | true => exact hk
        | false => exact absurd hk List.not_mem_nil
      mem_rawSyms := by simp [start]
      consistent := by simp [start]
      fresh := by simp [start]
      refused := by simp [start] }
  unique := by simp [Unique, start]
  atomic :=
    { entries := hcfg
      workers := by
        cases running with
        | true => exact hcfg
        | false => exact List.nodup_nil
      clean := by simp [start]
      refused := by simp [start] }

theorem along_atomic_iff (h : Good cfg s) (es : List Event) :
    Along (step cfg) (fun s e => Atomic cfg (step cfg s e).1) s es ↔
      Along (step cfg) Smooth s es := by
  have hstep : ∀ s e, Good cfg s → (Atomic cfg (step cfg s e).1 ↔ Smooth s e) ∧
      (Smooth s e → Good cfg (step cfg s e).1) := fun s e h => atomic_step h e
  exact along_iff_along hstep es h

/-- **AddSymbol is atomic** exactly when the configured symbols differ and every step of the calls
is smooth: nothing fails once a symbol has been appended, and no other call has entered the symbol
when a call does. -/
theorem atomic_iff (cfg : Config) (running : Bool) (es : List Event) :
    (∀ fs, fs <+: es → Atomic cfg (final (step cfg) (start cfg running) fs)) ↔
      cfg.entries.Nodup ∧ Along (step cfg) Smooth (start cfg running) es := by
  rw [forall_prefix_iff]
  constructor
  · rintro ⟨hatomic, hall⟩
    have hcfg : cfg.entries.Nodup := hatomic.entries
    exact ⟨hcfg, (along_atomic_iff (good_start running hcfg) es).mp hall⟩
  · rintro ⟨hcfg, hall⟩
    have hgood := good_start running hcfg
    exact ⟨hgood.atomic, (along_atomic_iff hgood es).mpr hall⟩

def kucoinOnly : Config where
  exchanges := [.kucoin]
  entries := []
  rawSyms := []

/-- Two calls for a symbol pass the check before either enters it. -/
theorem entered_twice :
    ¬ ∀ fs, fs <+: [.call 0 "kucoin" "ADA-USDT", .call 1 "kucoin" "ADA-USDT", .advance 0 true,
        .advance 1 true, .advance 0 true, .advance 1 true, .advance 0 true, .advance 0 true,
        .advance 1 true] →
      Atomic kucoinOnly (final (step kucoinOnly) (start kucoinOnly true) fs) := by
  intro h
  have hentries := (h _ (List.prefix_refl _)).entries
  exact absurd hentries (by decide)

/-- The requests of a call cannot be written: its symbol stays with the adapter. -/
theorem left_behind :
    ¬ ∀ fs, fs <+: [.call 0 "kucoin" "ADA-USDT", .advance 0 true, .advance 0 true,
        .advance 0 false] →
      Atomic kucoinOnly (final (step kucoinOnly) (start kucoinOnly true) fs) := by
  intro h
  have hclean := (h _ (List.prefix_refl _)).clean 0 _ .subscribeFailed rfl rfl
  exact absurd hclean.1 (by decide)

end MagnumOpus.Aggregator.AddSymbol
