import Mathlib.Data.List.Find
import MagnumOpus.Candle.Migrator

/-!
# Runs of the migrator

`Run` promises that each migration is applied exactly once, in the order of the numbers, and none
when a recorded file has changed.  But the statement of a file and its record are two calls.

* **One run.** `Orderly`: nothing is executed when a checksum differs; else the files that are not
  recorded are, in order, and none after a failure.
* **All runs.** No statement takes effect twice: `safe_of_along`, when no call of a statement takes
  effect twice, no run leaves a statement that took effect without its record, and the table is read
  as it is.
-/

namespace MagnumOpus
namespace Candle
namespace Migrator

open EventMachine LatestBy

/-! ### Statements -/

/-- The version whose statement is sent. -/
def Sent.executed : Sent → Option ℤ
  | .exec v _ => some v
  | .record _ _ => none

/-- The version whose statement takes effect, as often as it does. -/
def Sent.effect : Sent → List ℤ
  | .exec v fate => List.replicate fate.times v
  | .record _ _ => []

def Sent.fate : Sent → Fate
  | .exec _ fate => fate
  | .record _ fate => fate

/-- The version is in the table. -/
def Recorded (rows : List Row) (v : ℤ) : Prop := ∃ row ∈ rows, row.version = some v

instance decidableRecorded (rows : List Row) (v : ℤ) : Decidable (Recorded rows v) :=
  inferInstanceAs (Decidable (∃ row ∈ rows, row.version = some v))

/-- The files that are not recorded. -/
def pending (rows : List Row) (files : List MigrationFile) : List MigrationFile :=
  files.filter fun mf => ¬ Recorded rows mf.version

/-- The statement of a version does not take effect, or it does once, is answered, and its record
takes effect. -/
def AnsweredOnce (call : Call) (v : ℤ) : Prop :=
  call.executed v = .failed 0 ∨ call.executed v = .done 0 ∧ 0 < (call.recorded v).times

/-- This holds of all files up to the first failure. -/
def Answered (call : Call) (files : List MigrationFile) : Prop :=
  ∀ before mf after, files = before ++ mf :: after →
    (∀ f ∈ before, (call.executed f.version).isDone = true ∧
      (call.recorded f.version).isDone = true) →
    AnsweredOnce call mf.version

namespace Host

variable (h : Host)

/-- A row of the file has another checksum. -/
def Differs (mf : MigrationFile) (row : Row) : Prop :=
  row.version = some mf.version ∧ ∃ content ∈ mf.content, row.checksum ≠ some (h.sha256 content)

/-- What one run with these files must do. -/
structure InOrder (rows : List Row) (call : Call) (files : List MigrationFile) : Prop where
  changed : (∃ mf ∈ files, ∃ row ∈ rows, h.Differs mf row) → (h.run rows call).sent = []
  isPrefix : (h.run rows call).sent.filterMap Sent.executed
    <+: (pending rows files).map MigrationFile.version
  ascending : ((h.run rows call).sent.filterMap Sent.executed).Pairwise fun v w => v < w
  stops : ∀ before o after, (h.run rows call).sent = before ++ o :: after →
    o.fate.isDone = false → after = []
  complete : (h.run rows call).error = none →
    (h.run rows call).sent.filterMap Sent.executed = (pending rows files).map MigrationFile.version

/-- What one run must do. -/
def Orderly (rows : List Row) (call : Call) : Prop :=
  match discoverFiles call.dir with
  | .error _ => (h.run rows call).sent = []
  | .ok files => h.InOrder rows call files

/-- The versions whose statements take effect in a sequence of runs. -/
def effects (rows : List Row) (calls : List Call) : List ℤ :=
  (trace h.step rows calls).flatMap Sent.effect

/-- Every run is orderly, and no statement takes effect twice. -/
def Safe (rows : List Row) (calls : List Call) : Prop :=
  Along h.step h.Orderly rows calls ∧ (h.effects rows calls).Nodup

/-- The table is read as it is, and the file at which a run stops is not left executed but not
recorded. -/
structure Kept (rows : List Row) (call : Call) (files : List MigrationFile) : Prop where
  asRead : ∀ row ∈ rows, ∀ v ∈ row.version, ∀ mf ∈ files,
    (h.asRead v = mf.version ↔ v = mf.version)
  changed : (∃ mf ∈ files, ∃ row ∈ rows, h.Differs mf row) →
    ∃ mf ∈ files, ∃ row ∈ latest Row.version rows (some mf.version), h.Differs mf row
  answered : Answered call (pending rows files)

/-- The condition on a run. -/
def Ready (rows : List Row) (call : Call) : Prop :=
  ∀ files, discoverFiles call.dir = .ok files → h.Kept rows call files

/-! ### The second pass -/

/-- What the second pass can do. -/
inductive Pass (call : Call) (applied : ℤ → Option String) :
    List Row → List MigrationFile → Outcome → Prop
  | nil {rows} : Pass call applied rows [] ⟨rows, [], none⟩
  | skip {rows mf files out} (hmf : applied mf.version ≠ none)
      (hrest : Pass call applied rows files out) : Pass call applied rows (mf :: files) out
  | unreadable {rows mf files} (hmf : applied mf.version = none) :
      Pass call applied rows (mf :: files) ⟨rows, [], some (.unreadable mf.filename)⟩
  | refused {rows mf files} (hmf : applied mf.version = none)
      (hfate : (call.executed mf.version).isDone = false) :
      Pass call applied rows (mf :: files)
        ⟨rows, [.exec mf.version (call.executed mf.version)], some (.apply mf.filename)⟩
  | unrecorded {rows mf files} (content : String) (hmf : applied mf.version = none)
      (hdone : (call.executed mf.version).isDone = true)
      (hfate : (call.recorded mf.version).isDone = false) :
      Pass call applied rows (mf :: files)
        ⟨rows ++ List.replicate (call.recorded mf.version).times
            ⟨some mf.version, some (h.sha256 content)⟩,
          [.exec mf.version (call.executed mf.version),
            .record mf.version (call.recorded mf.version)],
          some (.record mf.filename)⟩
  | applied {rows mf files out} (content : String) (hmf : applied mf.version = none)
      (hdone : (call.executed mf.version).isDone = true)
      (hrecorded : (call.recorded mf.version).isDone = true)
      (hrest : Pass call applied (rows ++ List.replicate (call.recorded mf.version).times
        ⟨some mf.version, some (h.sha256 content)⟩) files out) :
      Pass call applied rows (mf :: files)
        { out with sent := .exec mf.version (call.executed mf.version) ::
            .record mf.version (call.recorded mf.version) :: out.sent }

theorem pass_applyFiles (call : Call) (applied : ℤ → Option String) :
    ∀ (files : List MigrationFile) (rows : List Row),
      h.Pass call applied rows files (h.applyFiles call applied rows files)
  | [], _ => .nil
  | mf :: files, rows => by
      rw [applyFiles]
      cases happlied : applied mf.version with
      | some stored =>
        exact .skip (by rw [happlied]; simp) (pass_applyFiles call applied files rows)
      | none =>
        cases mf.content with
        | none => exact .unreadable happlied
        | some content =>
          cases hexec : (call.executed mf.version).isDone with
          | false =>
            simp only [applyOne, hexec, Bool.false_eq_true, if_false]
            exact .refused happlied hexec
          | true =>
            cases hrec : (call.recorded mf.version).isDone with
            | false =>
              simp only [applyOne, hexec, hrec, Bool.false_eq_true, if_true, if_false]
              exact .unrecorded content happlied hexec hrec
            | true =>
              simp only [applyOne, hexec, hrec, if_true]
              exact .applied content happlied hexec hrec (pass_applyFiles call applied files _)

end Host

/-- The files that the second pass does not skip. -/
def todo (applied : ℤ → Option String) (files : List MigrationFile) : List MigrationFile :=
  files.filter fun mf => applied mf.version = none

section pass

variable {h : Host} {call : Call} {applied : ℤ → Option String} {rows : List Row}
  {files : List MigrationFile} {out : Outcome}

theorem todo_skip {mf : MigrationFile} (hmf : applied mf.version ≠ none) :
    todo applied (mf :: files) = todo applied files :=
  List.filter_cons_of_neg (by simpa using hmf)

theorem todo_cons {mf : MigrationFile} (hmf : applied mf.version = none) :
    todo applied (mf :: files) = mf :: todo applied files :=
  List.filter_cons_of_pos (by simpa using hmf)

/-- The files that are not skipped are executed in their order. -/
theorem pass_isPrefix (hpass : h.Pass call applied rows files out) :
    out.sent.filterMap Sent.executed <+: (todo applied files).map MigrationFile.version := by
  induction hpass with
  | nil => exact List.prefix_refl _
  | skip hmf _ ih => rwa [todo_skip hmf]
  | unreadable hmf => exact List.nil_prefix
  | refused hmf hfate =>
    rw [todo_cons hmf, List.map_cons]
    exact (List.prefix_cons_inj _).mpr List.nil_prefix
  | unrecorded content hmf hdone hfate =>
    rw [todo_cons hmf, List.map_cons]
    exact (List.prefix_cons_inj _).mpr List.nil_prefix
  | applied content hmf hdone hrecorded _ ih =>
    rw [todo_cons hmf, List.map_cons]
    exact (List.prefix_cons_inj _).mpr ih

theorem stops_cons {first : Sent} {rest : List Sent}
    (hfirst : first.fate.isDone = false → rest = [])
    (hrest : ∀ before o after, rest = before ++ o :: after → o.fate.isDone = false → after = []) :
    ∀ before o after, first :: rest = before ++ o :: after → o.fate.isDone = false →
      after = [] := by
  intro before o after hsent hfate
  rcases List.cons_eq_append_iff.mp hsent with ⟨rfl, hcons⟩ | ⟨before', rfl, hsplit⟩
  · obtain ⟨rfl, rfl⟩ := List.cons_eq_cons.mp hcons
    exact hfirst hfate
  · exact hrest before' o after hsplit hfate

theorem stops_nil : ∀ before (o : Sent) after, [] = before ++ o :: after →
    o.fate.isDone = false → after = [] := by
  intro before o after hsent
  exact absurd hsent (by simp)

theorem pass_stops (hpass : h.Pass call applied rows files out) :
    ∀ before o after, out.sent = before ++ o :: after → o.fate.isDone = false → after = [] := by
  have hnever : ∀ {fate : Fate} {rest : List Sent}, fate.isDone = true → fate.isDone = false →
      rest = [] := fun hdone hfate => absurd (hdone.symm.trans hfate) (by decide)
  induction hpass with
  | nil => exact stops_nil
  | skip _ _ ih => exact ih
  | unreadable _ => exact stops_nil
  | refused _ _ => exact stops_cons (fun _ => rfl) stops_nil
  | unrecorded content _ hdone _ =>
    exact stops_cons (hnever hdone) (stops_cons (fun _ => rfl) stops_nil)
  | applied content _ hdone hrecorded _ ih =>
    exact stops_cons (hnever hdone) (stops_cons (hnever hrecorded) ih)

theorem pass_complete (hpass : h.Pass call applied rows files out) : out.error = none →
    out.sent.filterMap Sent.executed = (todo applied files).map MigrationFile.version := by
  induction hpass with
  | nil => exact fun _ => rfl
  | skip hmf _ ih => rwa [todo_skip hmf]
  | unreadable hmf => exact fun herror => absurd herror (by simp)
  | refused hmf hfate => exact fun herror => absurd herror (by simp)
  | unrecorded content hmf hdone hfate => exact fun herror => absurd herror (by simp)
  | applied content hmf hdone hrecorded _ ih =>
    intro herror
    rw [todo_cons hmf, List.map_cons, ← ih herror]
    rfl

theorem pass_rows (hpass : h.Pass call applied rows files out) : rows <+: out.rows := by
  induction hpass with
  | nil => exact List.prefix_refl _
  | skip _ _ ih => exact ih
  | unreadable _ => exact List.prefix_refl _
  | refused _ _ => exact List.prefix_refl _
  | unrecorded content _ _ _ => exact List.prefix_append _ _
  | applied content _ _ _ _ ih => exact (List.prefix_append _ _).trans ih

theorem Recorded.mono {rows rows' : List Row} {v : ℤ} (hv : Recorded rows v)
    (hsub : rows <+: rows') : Recorded rows' v := by
  obtain ⟨row, hrow, hversion⟩ := hv
  exact ⟨row, hsub.subset hrow, hversion⟩

theorem recorded_append (rows : List Row) (v : ℤ) (checksum : Option String) {times : ℕ}
    (h : 0 < times) : Recorded (rows ++ List.replicate times ⟨some v, checksum⟩) v :=
  ⟨⟨some v, checksum⟩,
    List.mem_append_right _ (List.mem_replicate.mpr ⟨Nat.pos_iff_ne_zero.mp h, rfl⟩), rfl⟩

/-- The first file, and the others once it is applied. -/
theorem Answered.cons {mf : MigrationFile} (ha : Answered call (mf :: files)) :
    AnsweredOnce call mf.version ∧
    ((call.executed mf.version).isDone = true → (call.recorded mf.version).isDone = true →
      Answered call files) := by
  refine ⟨ha [] mf files rfl fun f hf => absurd hf List.not_mem_nil, ?_⟩
  rintro hexec hrec before mf' after rfl hbefore
  apply ha (mf :: before) mf' after rfl
  intro f hf
  rcases List.mem_cons.mp hf with rfl | hf
  · exact ⟨hexec, hrec⟩
  · exact hbefore f hf

theorem AnsweredOnce.of_done {v : ℤ} (ha : AnsweredOnce call v)
    (hdone : (call.executed v).isDone = true) :
    call.executed v = .done 0 ∧ 0 < (call.recorded v).times := by
  rcases ha with hfailed | hanswered
  · rw [hfailed] at hdone
    cases hdone
  · exact hanswered

/-- What takes effect was executed, and is recorded. -/
theorem pass_effects (hpass : h.Pass call applied rows files out) :
    Answered call (todo applied files) →
      (out.sent.flatMap Sent.effect).Sublist (out.sent.filterMap Sent.executed) ∧
        ∀ v ∈ out.sent.flatMap Sent.effect, Recorded out.rows v := by
  induction hpass with
  | nil => exact fun _ => ⟨.slnil, fun v hv => absurd hv List.not_mem_nil⟩
  | skip hmf _ ih => rwa [todo_skip hmf]
  | unreadable hmf => exact fun _ => ⟨.slnil, fun v hv => absurd hv List.not_mem_nil⟩
  | @refused rows mf files hmf hfate =>
    intro ha
    rw [todo_cons hmf] at ha
    rcases ha.cons.1 with hfailed | ⟨hdone, -⟩
    · have hnone : [Sent.exec mf.version (call.executed mf.version)].flatMap Sent.effect = [] := by
        rw [hfailed]
        rfl
      dsimp only
      rw [hnone]
      exact ⟨List.nil_sublist _, fun v hv => absurd hv List.not_mem_nil⟩
    · rw [hdone] at hfate
      cases hfate
  | @unrecorded rows mf files content hmf hdone hfate =>
    intro ha
    rw [todo_cons hmf] at ha
    obtain ⟨hexec, hrecorded⟩ := ha.cons.1.of_done hdone
    dsimp only
    rw [hexec]
    refine ⟨List.Sublist.refl [mf.version], fun v hv => ?_⟩
    obtain rfl : v = mf.version := List.mem_singleton.mp hv
    exact recorded_append _ _ _ hrecorded
  | @applied rows mf files out content hmf hdone hrecorded hrest ih =>
    intro ha
    rw [todo_cons hmf] at ha
    obtain ⟨hexec, htimes⟩ := ha.cons.1.of_done hdone
    obtain ⟨hsublist, hkept⟩ := ih (ha.cons.2 hdone hrecorded)
    dsimp only
    rw [hexec]
    refine ⟨hsublist.cons_cons mf.version, fun v hv => ?_⟩
    rcases List.mem_cons.mp hv with rfl | hv
    · exact (recorded_append rows mf.version _ htimes).mono (pass_rows hrest)
    · exact hkept v hv

end pass

namespace Host

variable {h : Host}

/-! ### One run -/

section run

variable {rows : List Row} {call : Call} {files : List MigrationFile}

theorem run_cases (h : Host) (rows : List Row) (call : Call) :
    (∃ failure, h.run rows call = ⟨rows, [], some failure⟩) ∨
      ∃ applied files, h.prepare rows call = .ok (applied, files) ∧
        h.Pass call applied rows files (h.run rows call) := by
  unfold run
  cases hprepare : h.prepare rows call with
  | error failure => exact Or.inl ⟨failure, rfl⟩
  | ok ready => exact Or.inr ⟨ready.1, ready.2, rfl, h.pass_applyFiles call ready.1 ready.2 rows⟩

theorem run_rows (rows : List Row) (call : Call) : rows <+: (h.run rows call).rows := by
  rcases run_cases h rows call with ⟨failure, hrun⟩ | ⟨applied, files, -, hpass⟩
  · have hrows : (h.run rows call).rows = rows := by rw [hrun]
    exact hrows.symm ▸ List.prefix_refl rows
  · exact pass_rows hpass

/-- The key of a row is its version, as far as the files are concerned. -/
theorem Kept.key (hkept : h.Kept rows call files) {row : Row} (hrow : row ∈ rows)
    {mf : MigrationFile} (hmf : mf ∈ files) :
    h.key row = some mf.version ↔ row.version = some mf.version := by
  unfold Host.key
  cases hversion : row.version with
  | none => rfl
  | some v =>
    rw [Option.map_some, Option.some_inj, Option.some_inj]
    exact hkept.asRead row hrow v hversion mf hmf

theorem Kept.todo (hkept : h.Kept rows call files) (hsome : ∀ row ∈ rows, row.checksum.isSome) :
    Migrator.todo (h.lastChecksum rows) files = pending rows files := by
  apply List.filter_congr
  intro mf hmf
  rw [decide_eq_decide, lastChecksum_eq_none hsome]
  unfold Recorded
  simp only [not_exists, not_and]
  refine forall₂_congr fun row hrow => not_congr ?_
  exact hkept.key hrow hmf

theorem Kept.unchanged (hkept : h.Kept rows call files)
    (hprepare : h.prepare rows call = .ok (h.lastChecksum rows, files)) :
    ¬ ∃ mf ∈ files, ∃ row ∈ rows, h.Differs mf row := by
  intro hdiffers
  obtain ⟨-, -, hsome, hcheck⟩ := prepare_ok hprepare
  obtain ⟨mf, hmf, row, hlatest, -, content, hcontent, hne⟩ := hkept.changed hdiffers
  have hsame : latest h.key rows (some mf.version) = some row := by
    rw [← hlatest]
    apply List.find?_congr
    intro row' hrow'
    rw [decide_eq_decide]
    exact hkept.key (List.mem_reverse.mp hrow') hmf
  have hstored : h.lastChecksum rows mf.version = row.checksum := by
    unfold lastChecksum
    rw [hsame, Option.bind_some]
  have hrow : row ∈ rows := List.mem_reverse.mp (List.mem_of_find?_eq_some hlatest)
  obtain ⟨stored, hchecksum⟩ := Option.isSome_iff_exists.mp (hsome row hrow)
  have hequal := checkFiles_eq_ok.mp hcheck mf hmf stored (hstored.trans hchecksum)
  rw [hcontent, Option.map_some] at hequal
  exact hne (hchecksum.trans hequal.symm)

theorem inOrder_of_nothing {failure : Failure}
    (hrun : h.run rows call = ⟨rows, [], some failure⟩) : h.InOrder rows call files := by
  have hsent : (h.run rows call).sent = [] := by rw [hrun]
  have herror : (h.run rows call).error ≠ none := by simp [hrun]
  constructor
  · exact fun _ => hsent
  · rw [hsent]
    exact List.nil_prefix
  · rw [hsent]
    exact List.Pairwise.nil
  · rw [hsent]
    exact stops_nil
  · exact fun hnone => absurd hnone herror

theorem orderly_of_ready (hready : h.Ready rows call) : h.Orderly rows call := by
  unfold Orderly
  cases hfiles : discoverFiles call.dir with
  | error e =>
    rcases run_cases h rows call with ⟨failure, hrun⟩ | ⟨applied, found, hprepare, -⟩
    · show (h.run rows call).sent = []
      rw [hrun]
    · rw [(prepare_ok hprepare).1] at hfiles
      cases hfiles
  | ok files =>
    have hkept := hready files hfiles
    have hsorted : ((pending rows files).map MigrationFile.version).Pairwise fun v w => v < w := by
      rw [List.pairwise_map]
      exact (pairwise_discoverFiles hfiles).sublist List.filter_sublist
    rcases run_cases h rows call with ⟨failure, hrun⟩ | ⟨applied, found, hprepare, hpass⟩
    · exact inOrder_of_nothing hrun
    · obtain ⟨hfound, rfl, hsome, -⟩ := prepare_ok hprepare
      rw [hfiles] at hfound
      obtain rfl := Except.ok.inj hfound
      have htodo := hkept.todo hsome
      have hprefix := pass_isPrefix hpass
      rw [htodo] at hprefix
      refine ⟨?_, hprefix, hsorted.sublist hprefix.sublist, pass_stops hpass, ?_⟩
      · exact fun hdiffers => absurd hdiffers (hkept.unchanged hprepare)
      · rw [← htodo]
        exact pass_complete hpass

/-- What takes effect in one run was not recorded before, and is afterwards. -/
theorem effects_of_ready (hready : h.Ready rows call) :
    ((h.run rows call).sent.flatMap Sent.effect).Nodup ∧
      ∀ v ∈ (h.run rows call).sent.flatMap Sent.effect,
        ¬ Recorded rows v ∧ Recorded (h.run rows call).rows v := by
  rcases run_cases h rows call with ⟨failure, hrun⟩ | ⟨applied, files, hprepare, hpass⟩
  · rw [hrun]
    exact ⟨List.nodup_nil, fun v hv => absurd hv List.not_mem_nil⟩
  · obtain ⟨hfiles, rfl, hsome, -⟩ := prepare_ok hprepare
    have hkept := hready files hfiles
    have htodo := hkept.todo hsome
    obtain ⟨hsub, hrecorded⟩ := pass_effects hpass (by rw [htodo]; exact hkept.answered)
    have hprefix := pass_isPrefix hpass
    rw [htodo] at hprefix
    have hpending := hsub.trans hprefix.sublist
    constructor
    · apply List.Nodup.sublist hpending
      rw [List.Nodup, List.pairwise_map]
      refine ((pairwise_discoverFiles hfiles).sublist List.filter_sublist).imp fun {a b} hlt => ?_
      exact ne_of_lt hlt
    · intro v hv
      constructor
      · obtain ⟨mf, hmf, rfl⟩ := List.mem_map.mp (hpending.subset hv)
        exact of_decide_eq_true (List.mem_filter.mp hmf).2
      · exact hrecorded v hv

end run

/-! ### All runs -/

/-- What takes effect in a sequence of runs takes effect once, and was not recorded before. -/
theorem effects_of_along : ∀ {calls : List Call} {rows : List Row},
    Along h.step h.Ready rows calls →
      (h.effects rows calls).Nodup ∧ ∀ v ∈ h.effects rows calls, ¬ Recorded rows v
  | [], _, _ => ⟨List.nodup_nil, fun v hv => absurd hv List.not_mem_nil⟩
  | call :: calls, rows, hready => by
      obtain ⟨hnodup, hnew⟩ := effects_of_ready hready.1
      obtain ⟨hrestNodup, hrestNew⟩ := effects_of_along hready.2
      have hsplit : h.effects rows (call :: calls)
          = (h.run rows call).sent.flatMap Sent.effect ++
            h.effects (h.run rows call).rows calls := List.flatMap_append
      rw [hsplit]
      constructor
      · refine List.nodup_append.mpr ⟨hnodup, hrestNodup, fun v hv w hw heq => ?_⟩
        subst heq
        exact hrestNew v hw (hnew v hv).2
      · intro v hv
        rcases List.mem_append.mp hv with hv | hv
        · exact (hnew v hv).1
        · exact fun hrecorded => hrestNew v hv (hrecorded.mono (run_rows rows call))

/-- Along runs that are ready, every run is orderly and no statement takes effect twice. -/
theorem safe_of_along {calls : List Call} {rows : List Row}
    (hready : Along h.step h.Ready rows calls) : h.Safe rows calls :=
  ⟨hready.imp (fun _ _ => orderly_of_ready) calls, (effects_of_along hready).1⟩

/-! ### One file -/

/-- A directory with one migration. -/
def oneFile : List DirEntry := [⟨"001_a.sql", false, some "CREATE TABLE a (id LONG)"⟩]

def fileA : MigrationFile := ⟨1, "001_a", "001_a.sql", some "CREATE TABLE a (id LONG)"⟩

/-- The checksum of the one migration. -/
def oneSum : Host :=
  ⟨fun _ => "61541e544f89001a32c8828cc5267943598e56a1ec0e57b4bf7f0652efa1e9f4", -2 ^ 63⟩

/-- A run with the one file. -/
def runOf (executed : Fate) : Call :=
  { dir := some oneFile
    cancelled := false
    ensured := .done 0
    queried := .done 0
    executed := fun _ => executed
    recorded := fun _ => .done 0 }

theorem discoverFiles_oneFile : discoverFiles (some oneFile) = .ok [fileA] := by
  refine JsonDecode.bind_eq_ok.mpr ⟨[fileA], rfl, ?_⟩
  dsimp only
  rw [List.mergeSort_singleton]
  rfl

theorem prepare_runOf (executed : Fate) :
    oneSum.prepare [] (runOf executed) = .ok (fun _ => none, [fileA]) := by
  show (do
    let applied ← oneSum.loadRows 0 (fun _ => none) []
    let files ← discoverFiles (some oneFile)
    oneSum.checkFiles applied files
    return (applied, files) : Except Failure _) = _
  rw [discoverFiles_oneFile]
  rfl

theorem run_runOf (executed : Fate) :
    oneSum.run [] (runOf executed)
      = oneSum.applyFiles (runOf executed) (fun _ => none) [] [fileA] := by
  unfold run
  rw [prepare_runOf]

/-- A statement whose answer is lost takes effect again in the next run. -/
theorem not_safe_of_lost :
    ¬ ∀ (h : Host) (rows : List Row) (calls : List Call), h.Safe rows calls := by
  intro hall
  have hnodup := (hall oneSum [] [runOf (.failed 1), runOf (.done 0)]).2
  have hfirst : oneSum.run [] (runOf (.failed 1))
      = ⟨[], [.exec 1 (.failed 1)], some (.apply "001_a.sql")⟩ := run_runOf (.failed 1)
  have heffects : oneSum.effects [] [runOf (.failed 1), runOf (.done 0)] = [1, 1] := by
    unfold effects
    rw [trace_cons, trace_cons, trace_nil]
    show List.flatMap Sent.effect ((oneSum.run [] (runOf (.failed 1))).sent ++
      ((oneSum.run (oneSum.run [] (runOf (.failed 1))).rows (runOf (.done 0))).sent ++ [])) = _
    rw [hfirst, run_runOf]
    rfl
  rw [heffects] at hnodup
  exact absurd hnodup (by decide)

theorem ready_runOf : oneSum.Ready [] (runOf (.done 0)) := by
  intro files hfiles
  obtain rfl : [fileA] = files := Except.ok.inj (discoverFiles_oneFile.symm.trans hfiles)
  refine ⟨fun row hrow => absurd hrow List.not_mem_nil, ?_, ?_⟩
  · rintro ⟨mf, -, row, hrow, -⟩
    exact absurd hrow List.not_mem_nil
  · intro before mf after _ _
    exact Or.inr ⟨rfl, Nat.one_pos⟩

/-- The table after the one file is recorded. -/
def oneRow : List Row :=
  [⟨some 1, some "61541e544f89001a32c8828cc5267943598e56a1ec0e57b4bf7f0652efa1e9f4"⟩]

theorem ready_oneRow : oneSum.Ready oneRow (runOf (.done 0)) := by
  intro files hfiles
  obtain rfl : [fileA] = files := Except.ok.inj (discoverFiles_oneFile.symm.trans hfiles)
  have hpending : pending oneRow [fileA] = [] := by rfl
  refine ⟨?_, ?_, ?_⟩
  · intro row hrow v hv mf hmf
    obtain rfl := List.mem_singleton.mp hrow
    obtain rfl := List.mem_singleton.mp hmf
    obtain rfl : 1 = v := Option.some_inj.mp hv
    exact iff_of_true (by decide) rfl
  · rintro ⟨mf, hmf, row, hrow, -, content, -, hne⟩
    obtain rfl := List.mem_singleton.mp hrow
    exact absurd rfl hne
  · intro before mf after hsplit
    rw [hpending] at hsplit
    exact absurd hsplit (by simp)

/-- Two runs whose calls all work. -/
theorem safe_of_done : oneSum.Safe [] [runOf (.done 0), runOf (.done 0)] := by
  refine safe_of_along ⟨ready_runOf, ?_, trivial⟩
  have hrows : (oneSum.step [] (runOf (.done 0))).1 = oneRow := by
    show (oneSum.run [] (runOf (.done 0))).rows = oneRow
    rw [run_runOf]
    rfl
  rw [hrows]
  exact ready_oneRow

end Host

end Migrator
end Candle
end MagnumOpus
