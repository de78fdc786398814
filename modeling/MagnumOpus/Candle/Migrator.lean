import MagnumOpus.Lib.EventMachine
import MagnumOpus.Lib.JsonDecode
import MagnumOpus.Lib.LatestBy
import MagnumOpus.Lib.SortedBy
import MagnumOpus.Lib.Strconv

/-!
# The schema migrator

At start-up the candle service runs the files `NNN_description.sql` of a directory against
QuestDB, in the order of their numbers, and records each with its checksum in the table
`schema_migrations`.  A file that is recorded is not run again; its checksum is compared instead.

Each statement is an HTTP call of its own, a `GET` without a body.  It may fail before it takes
effect or after, and the transport sends it again by itself when the connection that it has reused
breaks before an answer; so it may take effect more than once.
-/

namespace MagnumOpus
namespace Candle
namespace Migrator

open EventMachine LatestBy

/-- What `os.ReadDir` lists, and what `os.ReadFile` reads of it, if it does. -/
structure DirEntry where
  name : String
  isDir : Bool
  content : Option String

/-- `migrationFile`, with what is read at its path. -/
structure MigrationFile where
  version : ℤ
  name : String
  filename : String
  content : Option String
deriving DecidableEq

/-- A row of `schema_migrations`: the columns that are read. -/
structure Row where
  version : Option ℤ
  checksum : Option String
deriving DecidableEq

/-- How an HTTP call ends. -/
inductive Fate
  /-- It is answered; it has taken effect once, and again when it was sent again. -/
  | done (again : ℕ)
  /-- It fails; it may have taken effect before. -/
  | failed (times : ℕ)
deriving DecidableEq

/-- How often it takes effect. -/
def Fate.times : Fate → ℕ
  | done again => again + 1
  | failed times => times

def Fate.isDone : Fate → Bool
  | done _ => true
  | failed _ => false

/-- Why `Run` returns an error. -/
inductive Failure
  | cancelled
  | ensureSchemaTable
  | queryRows
  | versionType (row : ℕ)
  | checksumType (row : ℕ)
  | discoverFiles
  | noNumber (filename : String)
  | notInteger (filename : String)
  | notPositive (filename : String) (version : ℤ)
  | badCharacter (filename : String) (c : Char)
  | duplicate (version : ℤ) (first second : String)
  | unreadable (filename : String)
  | mismatch (version : ℤ) (filename stored computed : String)
  | apply (filename : String)
  | record (filename : String)
deriving DecidableEq

/-- What a call of `Run` meets: the directory, if it can be listed, a context that is cancelled
before, and the fates of its HTTP calls. -/
structure Call where
  dir : Option (List DirEntry)
  cancelled : Bool
  ensured : Fate
  queried : Fate
  executed : ℤ → Fate
  recorded : ℤ → Fate

/-- A statement of a migration that is sent, or the insert that records it. -/
inductive Sent
  | exec (version : ℤ) (fate : Fate)
  | record (version : ℤ) (fate : Fate)
deriving DecidableEq

/-- The table after the calls, what was sent, and the error. -/
structure Outcome where
  rows : List Row
  sent : List Sent
  error : Option Failure

/-- What the code takes from outside: the hash, and what a conversion to `int64` gives out of
range, which Go leaves to the implementation. -/
structure Host where
  sha256 : String → String
  outside : ℤ

/-! ### Reading the directory -/

/-- `validateMigrationName`: the first character that is not allowed. -/
def validateMigrationName (name : String) : Option Char :=
  name.toList.find? fun c =>
    !(decide ('a' ≤ c ∧ c ≤ 'z') || decide ('A' ≤ c ∧ c ≤ 'Z') || decide ('0' ≤ c ∧ c ≤ '9') ||
      c = '_' || c = '-')

/-- One entry of the directory. -/
def parseEntry (e : DirEntry) : Except Failure (Option MigrationFile) :=
  if e.isDir then .ok none
  else if ¬ ".sql".toList <:+ e.name.toList then .ok none
  else if '_' ∉ e.name.toList then .error (.noNumber e.name)
  else
    match Strconv.readInt (String.ofList (e.name.toList.takeWhile (· ≠ '_'))) with
    | .error _ => .error (.notInteger e.name)
    | .ok ver =>
      if ver.toInt ≤ 0 then .error (.notPositive e.name ver.toInt)
      else
        let name := String.ofList (e.name.toList.take (e.name.toList.length - ".sql".toList.length))
        match validateMigrationName name with
        | some c => .error (.badCharacter e.name c)
        | none => .ok (some ⟨ver.toInt, name, e.name, e.content⟩)

def parseEntries : List DirEntry → Except Failure (List MigrationFile)
  | [] => .ok []
  | e :: es => do
    let found ← parseEntry e
    let rest ← parseEntries es
    return found.toList ++ rest

/-- The first two neighbours of one version. -/
def firstDuplicate : List MigrationFile → Option (MigrationFile × MigrationFile)
  | a :: b :: files => if a.version = b.version then some (a, b) else firstDuplicate (b :: files)
  | _ => none

/-- `discoverFiles`. -/
def discoverFiles : Option (List DirEntry) → Except Failure (List MigrationFile)
  | none => .error .discoverFiles
  | some dir => do
    let found ← parseEntries dir
    let files := found.mergeSort fun a b => a.version ≤ b.version
    match firstDuplicate files with
    | some (a, b) => .error (.duplicate b.version a.filename b.filename)
    | none => .ok files

/-! ### Reading the table -/

/-- The `float64` that is nearest to an integer, of two the even one. -/
def float64 (v : ℤ) : ℤ :=
  let shift := v.natAbs.log2 - 52
  let kept := v.natAbs / 2 ^ shift
  let rest := v.natAbs % 2 ^ shift
  let mantissa :=
    if 2 * rest < 2 ^ shift ∨ 2 * rest = 2 ^ shift ∧ kept % 2 = 0 then kept else kept + 1
  v.sign * (mantissa * 2 ^ shift : ℕ)

namespace Host

variable (h : Host)

/-- A version as `loadApplied` gets it: JSON numbers are decoded as `float64`. -/
def asRead (v : ℤ) : ℤ :=
  if -2 ^ 63 ≤ float64 v ∧ float64 v < 2 ^ 63 then float64 v else h.outside

/-- `loadApplied`, from a row on. -/
def loadRows : ℕ → (ℤ → Option String) → List Row → Except Failure (ℤ → Option String)
  | _, result, [] => .ok result
  | i, _, ⟨none, _⟩ :: _ => .error (.versionType i)
  | i, _, ⟨some _, none⟩ :: _ => .error (.checksumType i)
  | i, result, ⟨some v, some chk⟩ :: rows =>
    loadRows (i + 1) (Function.update result (h.asRead v) (some chk)) rows

/-- Pass 1 of `Run`. -/
def checkFiles (applied : ℤ → Option String) : List MigrationFile → Except Failure Unit
  | [] => .ok ()
  | mf :: files =>
    match applied mf.version, mf.content with
    | none, _ => checkFiles applied files
    | some _, none => .error (.unreadable mf.filename)
    | some stored, some content =>
      if stored = h.sha256 content then checkFiles applied files
      else .error (.mismatch mf.version mf.filename stored (h.sha256 content))

/-- `Run`, up to its second pass. -/
def prepare (rows : List Row) (call : Call) :
    Except Failure ((ℤ → Option String) × List MigrationFile) :=
  if call.cancelled then .error .cancelled
  else if call.ensured.isDone = false then .error .ensureSchemaTable
  else if call.queried.isDone = false then .error .queryRows
  else do
    let applied ← h.loadRows 0 (fun _ => none) rows
    let files ← discoverFiles call.dir
    h.checkFiles applied files
    return (applied, files)

/-! ### Applying the files -/

/-- `applyOne`. -/
def applyOne (call : Call) (rows : List Row) (mf : MigrationFile) (content : String) : Outcome :=
  let executed := call.executed mf.version
  let recorded := call.recorded mf.version
  if executed.isDone then
    { rows := rows ++
        List.replicate recorded.times ⟨some mf.version, some (h.sha256 content)⟩
      sent := [.exec mf.version executed, .record mf.version recorded]
      error := if recorded.isDone then none else some (.record mf.filename) }
  else ⟨rows, [.exec mf.version executed], some (.apply mf.filename)⟩

/-- Pass 2 of `Run`. -/
def applyFiles (call : Call) (applied : ℤ → Option String) :
    List Row → List MigrationFile → Outcome
  | rows, [] => ⟨rows, [], none⟩
  | rows, mf :: files =>
    match applied mf.version, mf.content with
    | some _, _ => applyFiles call applied rows files
    | none, none => ⟨rows, [], some (.unreadable mf.filename)⟩
    | none, some content =>
      let out := h.applyOne call rows mf content
      match out.error with
      | some _ => out
      | none =>
        let rest := applyFiles call applied out.rows files
        { rest with sent := out.sent ++ rest.sent }

/-- `Run`. -/
def run (rows : List Row) (call : Call) : Outcome :=
  match h.prepare rows call with
  | .error failure => ⟨rows, [], some failure⟩
  | .ok (applied, files) => h.applyFiles call applied rows files

def step : Step (List Row) Call Sent := fun rows call =>
  ((h.run rows call).rows, (h.run rows call).sent)

end Host

/-! ### What the directory gives -/

theorem isChain_of_firstDuplicate : ∀ {files : List MigrationFile}, firstDuplicate files = none →
    files.IsChain fun a b => a.version ≠ b.version
  | [], _ => .nil
  | [a], _ => .singleton a
  | a :: b :: files, hnone => by
      rw [firstDuplicate] at hnone
      split at hnone
      · cases hnone
      · rename_i hne
        exact .cons_cons hne (isChain_of_firstDuplicate hnone)

/-- The files come in the order of their numbers, and no number comes twice. -/
theorem pairwise_discoverFiles {dir : Option (List DirEntry)} {files : List MigrationFile}
    (hok : discoverFiles dir = .ok files) : files.Pairwise fun a b => a.version < b.version := by
  cases dir with
  | none => cases hok
  | some entries =>
    obtain ⟨found, -, hok⟩ := JsonDecode.bind_eq_ok.mp hok
    dsimp only at hok
    cases hdup : firstDuplicate (found.mergeSort fun a b => a.version ≤ b.version) with
    | some pair =>
      rw [hdup] at hok
      cases hok
    | none =>
      rw [hdup] at hok
      cases hok
      exact SortedBy.pairwise_lt_of_isChain
        (SortedBy.pairwise_mergeSort MigrationFile.version found)
        (isChain_of_firstDuplicate hdup)

/-! ### What the table gives -/

namespace Host

variable (h : Host)

/-- The version of a row as it is read. -/
def key (row : Row) : Option ℤ := row.version.map h.asRead

/-- The checksum of the last row that is read as a version. -/
def lastChecksum (rows : List Row) (v : ℤ) : Option String :=
  (latest h.key rows (some v)).bind Row.checksum

variable {h}

theorem loadRows_ok : ∀ {rows pre : List Row} {i : ℕ} {result : ℤ → Option String},
    h.loadRows i (h.lastChecksum pre) rows = .ok result →
      result = h.lastChecksum (pre ++ rows) ∧ ∀ row ∈ rows, row.checksum.isSome
  | [], pre, i, result, hok => by
      rw [List.append_nil]
      cases hok
      exact ⟨rfl, fun row hrow => absurd hrow List.not_mem_nil⟩
  | ⟨none, _⟩ :: _, _, _, _, hok => by cases hok
  | ⟨some _, none⟩ :: _, _, _, _, hok => by cases hok
  | ⟨some v, some chk⟩ :: rows, pre, i, result, hok => by
      have hnext : Function.update (h.lastChecksum pre) (h.asRead v) (some chk)
          = h.lastChecksum (pre ++ [⟨some v, some chk⟩]) := by
        funext w
        unfold lastChecksum
        rw [latest_append_singleton]
        by_cases heq : w = h.asRead v
        · subst heq
          rw [Function.update_self, if_pos (by rfl)]
          rfl
        · have hne : h.key ⟨some v, some chk⟩ ≠ some w := fun hkey =>
            heq (Option.some_inj.mp hkey).symm
          rw [Function.update_of_ne heq, if_neg hne]
      rw [loadRows, hnext] at hok
      obtain ⟨hresult, hsome⟩ := loadRows_ok hok
      rw [List.append_assoc] at hresult
      refine ⟨hresult, fun row hrow => ?_⟩
      rcases List.mem_cons.mp hrow with rfl | hrow
      · rfl
      · exact hsome row hrow

theorem lastChecksum_eq_none {rows : List Row} (hsome : ∀ row ∈ rows, row.checksum.isSome) (v : ℤ) :
    h.lastChecksum rows v = none ↔ ∀ row ∈ rows, h.key row ≠ some v := by
  unfold lastChecksum latest
  constructor
  · intro hnone row hrow hkey
    cases hfound : rows.reverse.find? fun x => decide (h.key x = some v) with
    | none => exact absurd hkey (by simpa using List.find?_eq_none.mp hfound row (by simpa))
    | some found =>
      rw [hfound, Option.bind_some] at hnone
      have hmem := hsome found (List.mem_reverse.mp (List.mem_of_find?_eq_some hfound))
      rw [hnone] at hmem
      cases hmem
  · intro hne
    have hfound : rows.reverse.find? (fun x => decide (h.key x = some v)) = none := by
      rw [List.find?_eq_none]
      intro row hrow
      simpa using hne row (List.mem_reverse.mp hrow)
    rw [hfound, Option.bind_none]

/-- Pass 1 goes through exactly when every recorded file has its checksum. -/
theorem checkFiles_eq_ok {applied : ℤ → Option String} : ∀ {files : List MigrationFile},
    h.checkFiles applied files = .ok () ↔ ∀ mf ∈ files, ∀ stored ∈ applied mf.version,
      mf.content.map h.sha256 = some stored
  | [] => iff_of_true rfl fun mf hmf => absurd hmf List.not_mem_nil
  | mf :: files => by
      have hrest : h.checkFiles applied files = .ok () ↔ _ := checkFiles_eq_ok
      rw [checkFiles, List.forall_mem_cons]
      cases happlied : applied mf.version with
      | none =>
        simp only [hrest, Option.not_mem_none, false_imp_iff,
          implies_true, true_and]
      | some stored =>
        simp only [Option.mem_some_iff, forall_eq']
        cases hcontent : mf.content with
        | none => simp
        | some content =>
          simp only [Option.map_some, Option.some_inj]
          split
          · rename_i heq
            rw [hrest, heq, eq_self_iff_true, true_and]
          · rename_i hne
            exact iff_of_false (by simp) fun hall => hne hall.1.symm

/-- What `Run` has when it begins to apply. -/
theorem prepare_ok {rows : List Row} {call : Call} {applied : ℤ → Option String}
    {files : List MigrationFile} (hok : h.prepare rows call = .ok (applied, files)) :
    discoverFiles call.dir = .ok files ∧ applied = h.lastChecksum rows ∧
      (∀ row ∈ rows, row.checksum.isSome) ∧ h.checkFiles applied files = .ok () := by
  unfold prepare at hok
  split at hok
  · cases hok
  split at hok
  · cases hok
  split at hok
  · cases hok
  obtain ⟨loaded, hload, hok⟩ := JsonDecode.bind_eq_ok.mp hok
  obtain ⟨found, hfiles, hok⟩ := JsonDecode.bind_eq_ok.mp hok
  obtain ⟨_, hcheck, hok⟩ := JsonDecode.bind_eq_ok.mp hok
  cases hok
  have hempty : h.loadRows 0 (h.lastChecksum []) rows = .ok _ := hload
  obtain ⟨happlied, hsome⟩ := loadRows_ok hempty
  exact ⟨hfiles, happlied, hsome, hcheck⟩

end Host

end Migrator
end Candle
end MagnumOpus
