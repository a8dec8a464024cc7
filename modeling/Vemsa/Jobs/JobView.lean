import Mathlib
import Vemsa.Jobs.AudioFiles

/-!
# Jobs — JobView

One job and its audio, on their own: the columns of its row that matter, its attempts in flight, the
files drawn for it that exist, and those `cancel_job` is about to unlink.  `JobView.Step` is what can
happen to them in a run where nothing crashes and no two attempts both fetch the source, and
`JobView.Tended` is who looks after the files: while the job is active its row does, or the attempt
that is recording its fetch; once it is over, whoever is still about to delete them.
-/

namespace Vemsa.Jobs
open Vemsa.Support

variable {P : Pydantic}

/-- The columns the care for the audio depends on. -/
structure AudioRow where
  status : JobStatus
  attempt : ℕ
  leaseOwner : Option WorkerId
  audioPath : Option Path
  /-- `_row_to_job` succeeds -/
  readable : Bool

@[ext]
structure JobView (P : Pydantic) where
  row : Option AudioRow
  attempts : ℕ ⊕ WorkerId → Option (Task P)
  files : Set Path
  pending : Set Path
  upload : Option Path

namespace JobView

/-- An attempt moves on. -/
def move (v : JobView P) (a : ℕ ⊕ WorkerId) (t : Task P) : JobView P :=
  { v with attempts := Function.update v.attempts a (some t) }

/-- **What can happen to a job.** -/
inductive Step (v : JobView P) : JobView P → Prop where
  | aside (files pending : Set Path) (hfiles : files ⊆ v.files)
      (hpending : ∀ p ∈ files, p ∈ v.pending → p ∈ pending) : Step v { v with files, pending }
  | submitted (upload : Option Path) (files : Set Path) (hrow : v.row = none)
      (hupload : v.upload = none) (hfiles : ∀ p ∈ files, p ∈ v.files ∨ upload = some p) :
      Step v { v with upload, files }
  | created (readable : Bool) (hrow : v.row = none) :
      Step v { v with row := some ⟨.queued, 0, none, v.upload, readable⟩ }
  | claimed (a : ℕ ⊕ WorkerId) (t : Task P) (row : AudioRow) (hrow : v.row = some row)
      (hactive : row.status.isTerminal = false) (hreadable : row.readable = true)
      (hfree : v.attempts a = none) (hattempt : t.job.attempt = row.attempt + 1)
      (haudio : t.audioPath = row.audioPath) (hpc : t.pc = .renewing)
      (hrecording : ∀ b u, v.attempts b = some u → u.pc ≠ .recording) :
      Step v { v.move a t with
        row := some { row with
          status := .running, attempt := row.attempt + 1, leaseOwner := some t.worker } }
  | started (a b : ℕ ⊕ WorkerId) (t : Task P) (ha : v.attempts a = some t)
      (hb : v.attempts b = none) :
      Step v { v with
        attempts := Function.update (Function.update v.attempts a none) b (some t) }
  | kept (a : ℕ ⊕ WorkerId) (t : Task P) (pc : TaskPc) (ha : v.attempts a = some t)
      (hbusy : t.pc.isBusy = true) (hbusy' : pc.isBusy = true) (hrecording : t.pc ≠ .recording)
      (hrecording' : pc ≠ .recording) (hfetching : pc = .fetching → t.audioPath = none) :
      Step v (v.move a { t with pc })
  | lost (a : ℕ ⊕ WorkerId) (t : Task P) (pc : TaskPc) (ha : v.attempts a = some t)
      (hbusy : t.pc.isBusy = true) (hrecording : t.pc ≠ .recording)
      (hpc : pc = .asking ∨ pc = .failing)
      (hlost : ∀ row, v.row = some row → row.status = .running →
        row.leaseOwner ≠ some t.worker) : Step v (v.move a { t with pc })
  | asked (a : ℕ ⊕ WorkerId) (t : Task P) (deleteAudio : Bool) (ha : v.attempts a = some t)
      (hpc : t.pc = .asking) (hdelete : ∀ row, v.row = some row → row.status = .cancelled →
        row.readable = true → deleteAudio = true) :
      Step v (v.move a { t with pc := .leaving deleteAudio })
  | fetched (a : ℕ ⊕ WorkerId) (t : Task P) (path : Path) (files : Set Path)
      (ha : v.attempts a = some t) (hpc : t.pc = .fetching)
      (hfiles : ∀ p ∈ files, p ∈ v.files ∨ p = path)
      (hlatest : ∀ row, v.row = some row → t.job.attempt = row.attempt) :
      Step v { v.move a { t with pc := .recording, audioPath := some path } with files }
  | recorded (a : ℕ ⊕ WorkerId) (t : Task P) (path : Path) (ha : v.attempts a = some t)
      (hpc : t.pc = .recording) (haudio : t.audioPath = some path) :
      Step v { v.move a { t with pc := .working } with
        row := v.row.map fun row => { row with audioPath := some path } }
  | unrecorded (a : ℕ ⊕ WorkerId) (t : Task P) (ha : v.attempts a = some t) (hpc : t.pc = .recording)
      (haudio : t.audioPath = none) : Step v (v.move a { t with pc := .working })
  | committed (a : ℕ ⊕ WorkerId) (t : Task P) (row : AudioRow) (status : JobStatus)
      (ha : v.attempts a = some t) (hpc : t.pc ≠ .recording) (hrow : v.row = some row)
      (hrun : row.status = .running) (hlatest : t.job.attempt = row.attempt)
      (hstatus : status = .completed ∨ status = .failed) :
      Step v { v.move a { t with pc := .leaving true } with
        row := some { row with status, leaseOwner := none } }
  | released (a : ℕ ⊕ WorkerId) (t : Task P) (row : AudioRow)
      (ha : v.attempts a = some t) (hpc : t.pc ≠ .recording) (hrow : v.row = some row)
      (hrun : row.status = .running) (hlatest : t.job.attempt = row.attempt) :
      Step v { v.move a { t with pc := .leaving false } with
        row := some { row with status := .queued, leaseOwner := none } }
  | left (a : ℕ ⊕ WorkerId) (t : Task P) (deleteAudio : Bool) (files : Set Path)
      (ha : v.attempts a = some t) (hpc : t.pc = .leaving deleteAudio) (hfiles : files ⊆ v.files)
      (hgone : deleteAudio = true → ∀ p ∈ files, t.audioPath ≠ some p) :
      Step v { v with attempts := Function.update v.attempts a none, files }
  | cancelled (row : AudioRow) (pending : Set Path) (hrow : v.row = some row)
      (hactive : row.status.isTerminal = false) (hpending : v.pending ⊆ pending)
      (hnew : row.attempt = 0 → ∀ p ∈ row.audioPath, p ∈ pending)
      (hretry : row.status = .queued → 1 ≤ row.attempt → ∀ p ∈ row.audioPath,
        ∃ a t, v.attempts a = some t ∧ t.audioPath = some p ∧ ∀ d, t.pc ≠ .leaving d) :
      Step v { v with
        row := some { row with status := .cancelled, leaseOwner := none }, pending }

/-! ### The invariant -/

/-- **The audio of a job is looked after.** -/
structure Tended (v : JobView P) : Prop where
  row : ∀ a t, v.attempts a = some t → ∃ row, v.row = some row ∧ 1 ≤ t.job.attempt ∧
    t.job.attempt ≤ row.attempt ∧ row.readable = true
  one : ∀ a b t u, v.attempts a = some t → v.attempts b = some u →
    t.job.attempt = u.job.attempt → a = b
  owner : ∀ a t row, v.attempts a = some t → v.row = some row → t.job.attempt = row.attempt →
    row.status = .running → row.leaseOwner = some t.worker
  path : ∀ a t row, v.attempts a = some t → v.row = some row → t.job.attempt = row.attempt →
    t.pc ≠ .recording → t.audioPath = row.audioPath
  recording : ∀ a t row, v.attempts a = some t → v.row = some row → t.pc = .recording →
    t.job.attempt = row.attempt ∧ row.audioPath = none
  fetched : ∀ a t, v.attempts a = some t → t.pc = .recording → t.audioPath ≠ none
  fetching : ∀ a t, v.attempts a = some t → t.pc = .fetching → t.audioPath = none
  running : ∀ row, v.row = some row → row.status = .running →
    ∃ a t, v.attempts a = some t ∧ t.job.attempt = row.attempt ∧ t.pc.isBusy = true
  done : ∀ a t row, v.attempts a = some t → v.row = some row →
    row.status = .completed ∨ row.status = .failed → t.job.attempt = row.attempt →
      t.pc = .leaving true
  unborn : v.row = none → ∀ p ∈ v.files, v.upload = some p
  active : ∀ row, v.row = some row → row.status.isTerminal = false → ∀ p ∈ v.files,
    row.audioPath = some p ∨
      ∃ a t, v.attempts a = some t ∧ t.pc = .recording ∧ t.audioPath = some p
  ended : ∀ row, v.row = some row → row.status = .completed ∨ row.status = .failed →
    ∀ p ∈ v.files, ∃ a t, v.attempts a = some t ∧ t.pc = .leaving true ∧ t.audioPath = some p
  cancelled : ∀ row, v.row = some row → row.status = .cancelled → ∀ p ∈ v.files,
    p ∈ v.pending ∨ ∃ a t, v.attempts a = some t ∧ t.pc ≠ .leaving false ∧ t.audioPath = some p

section

variable {v v' : JobView P} {a : ℕ ⊕ WorkerId} {t : Task P}

/-- The attempts after one of them has moved. -/
theorem move_attempts {t' : Task P} {b : ℕ ⊕ WorkerId} {u : Task P} :
    (v.move a t').attempts b = some u ↔ b = a ∧ t' = u ∨ b ≠ a ∧ v.attempts b = some u :=
  update_some_eq_some

/-- Another attempt holds what it held. -/
theorem other_attempt {t' : Task P} {p : Task P → Prop} (ha : v.attempts a = some t) (hp : ¬ p t)
    (h : ∃ b u, v.attempts b = some u ∧ p u) : ∃ b u, (v.move a t').attempts b = some u ∧ p u := by
  obtain ⟨b, u, hu, hpu⟩ := h
  refine ⟨b, u, move_attempts.mpr (.inr ⟨?_, hu⟩), hpu⟩
  rintro rfl
  obtain rfl := Option.some.inj (ha.symm.trans hu)
  exact hp hpu

theorem Tended.row_move (hv : v.Tended) (ha : v.attempts a = some t) {audioPath : Option Path}
    {pc : TaskPc} {b : ℕ ⊕ WorkerId} {u : Task P}
    (hu : (v.move a { t with audioPath, pc }).attempts b = some u) :
    ∃ row, v.row = some row ∧ 1 ≤ u.job.attempt ∧ u.job.attempt ≤ row.attempt ∧
      row.readable = true := by
  rcases move_attempts.mp hu with ⟨-, rfl⟩ | ⟨-, hu⟩
  · exact hv.row a t ha
  · exact hv.row b u hu

theorem Tended.one_move (hv : v.Tended) (ha : v.attempts a = some t) {audioPath : Option Path}
    {pc : TaskPc} {b c : ℕ ⊕ WorkerId} {u w : Task P}
    (hu : (v.move a { t with audioPath, pc }).attempts b = some u)
    (hw : (v.move a { t with audioPath, pc }).attempts c = some w)
    (he : u.job.attempt = w.job.attempt) : b = c := by
  rcases move_attempts.mp hu with ⟨rfl, rfl⟩ | ⟨-, hu₀⟩
  · rcases move_attempts.mp hw with ⟨rfl, -⟩ | ⟨-, hw₀⟩
    · rfl
    · exact hv.one _ _ t w ha hw₀ he
  · rcases move_attempts.mp hw with ⟨rfl, rfl⟩ | ⟨-, hw₀⟩
    · exact hv.one _ _ u t hu₀ ha he
    · exact hv.one _ _ u w hu₀ hw₀ he

/-- An attempt moves on while the row stays. -/
theorem Tended.moved (hv : v.Tended) (ha : v.attempts a = some t) {pc : TaskPc}
    (hrecording : t.pc ≠ .recording) (hrecording' : pc ≠ .recording)
    (hfetching : pc = .fetching → t.audioPath = none) (hleaving : t.pc ≠ .leaving true)
    (hbusy : t.pc.isBusy = true → pc.isBusy = true ∨
      ∀ row, v.row = some row → row.status = .running → row.leaseOwner ≠ some t.worker)
    (hcancelled : ∀ row, v.row = some row → row.status = .cancelled → row.readable = true →
      pc ≠ .leaving false) : (v.move a { t with pc }).Tended := by
  constructor
  case row => exact fun b u => hv.row_move ha
  case one => exact fun b c u w => hv.one_move ha
  case owner =>
    intro b u row hu
    rcases move_attempts.mp hu with ⟨-, rfl⟩ | ⟨-, hu⟩
    · exact hv.owner a t row ha
    · exact hv.owner b u row hu
  case path =>
    intro b u row hu hrow he hpc
    rcases move_attempts.mp hu with ⟨-, rfl⟩ | ⟨-, hu⟩
    · exact hv.path a t row ha hrow he hrecording
    · exact hv.path b u row hu hrow he hpc
  case recording =>
    intro b u row hu hrow hpc
    rcases move_attempts.mp hu with ⟨-, rfl⟩ | ⟨-, hu⟩
    · exact absurd hpc hrecording'
    · exact hv.recording b u row hu hrow hpc
  case fetched =>
    intro b u hu hpc
    rcases move_attempts.mp hu with ⟨-, rfl⟩ | ⟨-, hu⟩
    · exact absurd hpc hrecording'
    · exact hv.fetched b u hu hpc
  case fetching =>
    intro b u hu hpc
    rcases move_attempts.mp hu with ⟨-, rfl⟩ | ⟨-, hu⟩
    · exact hfetching hpc
    · exact hv.fetching b u hu hpc
  case running =>
    intro row hrow hrun
    obtain ⟨b, u, hu, he, hb⟩ := hv.running row hrow hrun
    by_cases hab : b = a
    · subst hab
      obtain rfl := Option.some.inj (ha.symm.trans hu)
      rcases hbusy hb with hb' | hlost
      · exact ⟨b, _, move_attempts.mpr (.inl ⟨rfl, rfl⟩), he, hb'⟩
      · exact absurd (hv.owner b t row ha hrow he hrun) (hlost row hrow hrun)
    · exact ⟨b, u, move_attempts.mpr (.inr ⟨hab, hu⟩), he, hb⟩
  case done =>
    intro b u row hu hrow hs he
    rcases move_attempts.mp hu with ⟨-, rfl⟩ | ⟨-, hu⟩
    · exact absurd (hv.done a t row ha hrow hs he) hleaving
    · exact hv.done b u row hu hrow hs he
  case unborn => exact hv.unborn
  case active =>
    intro row hrow hs p hp
    exact (hv.active row hrow hs p hp).imp_right (other_attempt ha fun h => hrecording h.1)
  case ended =>
    intro row hrow hs p hp
    exact other_attempt ha (fun h => hleaving h.1) (hv.ended row hrow hs p hp)
  case cancelled =>
    intro row hrow hs p hp
    refine (hv.cancelled row hrow hs p hp).imp_right fun ⟨b, u, hu, hpc, haudio⟩ => ?_
    by_cases hab : b = a
    · subst hab
      obtain rfl := Option.some.inj (ha.symm.trans hu)
      obtain ⟨row', hrow', -, -, hreadable⟩ := hv.row b t ha
      obtain rfl := Option.some.inj (hrow.symm.trans hrow')
      exact ⟨b, _, move_attempts.mpr (.inl ⟨rfl, rfl⟩), hcancelled row hrow hs hreadable, haudio⟩
    · exact ⟨b, u, move_attempts.mpr (.inr ⟨hab, hu⟩), hpc, haudio⟩

/-- The latest attempt is the only one. -/
theorem Tended.latest (hv : v.Tended) (ha : v.attempts a = some t) {row : AudioRow}
    (hlatest : t.job.attempt = row.attempt) {b : ℕ ⊕ WorkerId} {u : Task P}
    (hu : v.attempts b = some u) (he : u.job.attempt = row.attempt) : b = a :=
  hv.one b a u t hu ha (he.trans hlatest.symm)

/-- A job that was completed or failed has no latest attempt at work. -/
theorem Tended.not_done (hv : v.Tended) (ha : v.attempts a = some t) {row : AudioRow}
    (hrow : v.row = some row) (hlatest : t.job.attempt = row.attempt) (hpc : t.pc ≠ .leaving true) :
    ¬ (row.status = .completed ∨ row.status = .failed) :=
  fun hs => hpc (hv.done a t row ha hrow hs hlatest)

theorem Tended.record (hv : v.Tended) (ha : v.attempts a = some t) (hpc : t.pc = .recording)
    {path : Path} (haudio : t.audioPath = some path) {row : AudioRow} (hrow : v.row = some row) :
    Tended { v.move a { t with pc := .working } with
      row := some { row with audioPath := some path } } := by
  obtain ⟨hlatest, hnone⟩ := hv.recording a t row ha hrow hpc
  have hnot := hv.not_done ha hrow hlatest (by rw [hpc]; exact nofun)
  constructor
  case row =>
    intro b u hu
    obtain ⟨row', hrow', hrest⟩ := hv.row_move ha hu
    obtain rfl := Option.some.inj (hrow.symm.trans hrow')
    exact ⟨_, rfl, hrest⟩
  case one => exact fun b c u w => hv.one_move ha
  case owner =>
    rintro b u _ hu ⟨⟩ he hrun
    rcases move_attempts.mp hu with ⟨-, rfl⟩ | ⟨-, hu⟩
    · exact hv.owner a t row ha hrow he hrun
    · exact hv.owner b u row hu hrow he hrun
  case path =>
    rintro b u _ hu ⟨⟩ he hpc'
    rcases move_attempts.mp hu with ⟨-, rfl⟩ | ⟨hne, hu⟩
    · exact haudio
    · exact absurd (hv.latest ha hlatest hu he) hne
  case recording =>
    rintro b u _ hu ⟨⟩ hpc'
    rcases move_attempts.mp hu with ⟨-, rfl⟩ | ⟨hne, hu⟩
    · cases hpc'
    · exact absurd (hv.latest ha hlatest hu (hv.recording b u row hu hrow hpc').1) hne
  case fetched =>
    intro b u hu hpc'
    rcases move_attempts.mp hu with ⟨-, rfl⟩ | ⟨-, hu⟩
    · cases hpc'
    · exact hv.fetched b u hu hpc'
  case fetching =>
    intro b u hu hpc'
    rcases move_attempts.mp hu with ⟨-, rfl⟩ | ⟨-, hu⟩
    · cases hpc'
    · exact hv.fetching b u hu hpc'
  case running =>
    rintro _ ⟨⟩ hrun
    exact ⟨a, _, move_attempts.mpr (.inl ⟨rfl, rfl⟩), hlatest, rfl⟩
  case done =>
    rintro b u _ hu ⟨⟩ hs
    exact absurd hs hnot
  case unborn => exact nofun
  case active =>
    rintro _ ⟨⟩ hs p hp
    rcases hv.active row hrow hs p hp with hold | ⟨b, u, hu, hpc', hp'⟩
    · rw [hnone] at hold
      cases hold
    · obtain rfl := hv.latest ha hlatest hu (hv.recording b u row hu hrow hpc').1
      obtain rfl := Option.some.inj (ha.symm.trans hu)
      exact .inl (haudio.symm.trans hp')
  case ended =>
    rintro _ ⟨⟩ hs
    exact absurd hs hnot
  case cancelled =>
    rintro _ ⟨⟩ hs p hp
    refine (hv.cancelled row hrow hs p hp).imp_right fun ⟨b, u, hu, hpc', hp'⟩ => ?_
    by_cases hab : b = a
    · subst hab
      obtain rfl := Option.some.inj (ha.symm.trans hu)
      exact ⟨b, _, move_attempts.mpr (.inl ⟨rfl, rfl⟩), nofun, hp'⟩
    · exact ⟨b, u, move_attempts.mpr (.inr ⟨hab, hu⟩), hpc', hp'⟩

/-- The latest attempt, which holds the row, gives it up. -/
theorem Tended.giveUp (hv : v.Tended) (ha : v.attempts a = some t) (hpc : t.pc ≠ .recording)
    {row : AudioRow} (hrow : v.row = some row) (hrun : row.status = .running)
    (hlatest : t.job.attempt = row.attempt) {status : JobStatus} {deleteAudio : Bool}
    (hstatus : (status = .completed ∨ status = .failed) ∧ deleteAudio = true ∨
      status = .queued ∧ deleteAudio = false) :
    Tended { v.move a { t with pc := .leaving deleteAudio } with
      row := some { row with status, leaseOwner := none } } := by
  have hpath := hv.path a t row ha hrow hlatest hpc
  have hnorec : ∀ b u, v.attempts b = some u → u.pc ≠ .recording := by
    intro b u hu hpc'
    obtain rfl := hv.latest ha hlatest hu (hv.recording b u row hu hrow hpc').1
    obtain rfl := Option.some.inj (ha.symm.trans hu)
    exact hpc hpc'
  have hfiles : ∀ p ∈ v.files, row.audioPath = some p := by
    intro p hp
    rcases hv.active row hrow (by rw [hrun]; rfl) p hp with h | ⟨b, u, hu, hpc', -⟩
    · exact h
    · exact absurd hpc' (hnorec b u hu)
  have hnorun : status ≠ .running := by
    rintro rfl
    rcases hstatus with ⟨h | h, -⟩ | ⟨h, -⟩ <;> cases h
  have hnocancel : status ≠ .cancelled := by
    rintro rfl
    rcases hstatus with ⟨h | h, -⟩ | ⟨h, -⟩ <;> cases h
  constructor
  case row =>
    intro b u hu
    obtain ⟨row', hrow', hrest⟩ := hv.row_move ha hu
    obtain rfl := Option.some.inj (hrow.symm.trans hrow')
    exact ⟨_, rfl, hrest⟩
  case one => exact fun b c u w => hv.one_move ha
  case owner =>
    rintro b u _ hu ⟨⟩ he hrun
    exact absurd hrun hnorun
  case path =>
    rintro b u _ hu ⟨⟩ he hpc'
    rcases move_attempts.mp hu with ⟨-, rfl⟩ | ⟨-, hu⟩
    · exact hpath
    · exact hv.path b u row hu hrow he hpc'
  case recording =>
    rintro b u _ hu ⟨⟩ hpc'
    rcases move_attempts.mp hu with ⟨-, rfl⟩ | ⟨-, hu⟩
    · cases hpc'
    · exact absurd hpc' (hnorec b u hu)
  case fetched =>
    intro b u hu hpc'
    rcases move_attempts.mp hu with ⟨-, rfl⟩ | ⟨-, hu⟩
    · cases hpc'
    · exact hv.fetched b u hu hpc'
  case fetching =>
    intro b u hu hpc'
    rcases move_attempts.mp hu with ⟨-, rfl⟩ | ⟨-, hu⟩
    · cases hpc'
    · exact hv.fetching b u hu hpc'
  case running =>
    rintro _ ⟨⟩ hrun
    exact absurd hrun hnorun
  case done =>
    rintro b u _ hu ⟨⟩ hs he
    rcases hstatus with ⟨-, rfl⟩ | ⟨rfl, -⟩
    · rcases move_attempts.mp hu with ⟨-, rfl⟩ | ⟨hne, hu⟩
      · rfl
      · exact absurd (hv.latest ha hlatest hu he) hne
    · rcases hs with h | h <;> cases h
  case unborn => exact nofun
  case active =>
    rintro _ ⟨⟩ hs p hp
    exact .inl (hfiles p hp)
  case ended =>
    rintro _ ⟨⟩ hs p hp
    rcases hstatus with ⟨-, rfl⟩ | ⟨rfl, -⟩
    · exact ⟨a, _, move_attempts.mpr (.inl ⟨rfl, rfl⟩), rfl, hpath.trans (hfiles p hp)⟩
    · rcases hs with h | h <;> cases h
  case cancelled =>
    rintro _ ⟨⟩ hs
    exact absurd hs hnocancel

theorem Tended.fetch (hv : v.Tended) (ha : v.attempts a = some t) (hpc : t.pc = .fetching)
    {path : Path} {files : Set Path} (hfiles : ∀ p ∈ files, p ∈ v.files ∨ p = path)
    (hlatest : ∀ row, v.row = some row → t.job.attempt = row.attempt) :
    Tended { v.move a { t with pc := .recording, audioPath := some path } with files } := by
  obtain ⟨row, hrow, -⟩ := hv.row a t ha
  replace hlatest := hlatest row hrow
  have hnone := hv.fetching a t ha hpc
  have hnot := hv.not_done ha hrow hlatest (by rw [hpc]; exact nofun)
  have self : ∀ {row'}, v.row = some row' → row' = row := fun h =>
    Option.some.inj (h.symm.trans hrow)
  constructor
  case row => exact fun b u => hv.row_move ha
  case one => exact fun b c u w => hv.one_move ha
  case owner =>
    intro b u row' hu hrow' he hrun
    rcases move_attempts.mp hu with ⟨-, rfl⟩ | ⟨-, hu⟩
    · exact hv.owner a t row' ha hrow' he hrun
    · exact hv.owner b u row' hu hrow' he hrun
  case path =>
    intro b u row' hu hrow' he hpc'
    rcases move_attempts.mp hu with ⟨-, rfl⟩ | ⟨-, hu⟩
    · exact absurd rfl hpc'
    · exact hv.path b u row' hu hrow' he hpc'
  case recording =>
    intro b u row' hu hrow' hpc'
    rcases move_attempts.mp hu with ⟨-, rfl⟩ | ⟨-, hu⟩
    · obtain rfl := self hrow'
      exact ⟨hlatest, (hv.path a t row' ha hrow hlatest (by rw [hpc]; exact nofun)).symm.trans hnone⟩
    · exact hv.recording b u row' hu hrow' hpc'
  case fetched =>
    intro b u hu hpc'
    rcases move_attempts.mp hu with ⟨-, rfl⟩ | ⟨-, hu⟩
    · exact nofun
    · exact hv.fetched b u hu hpc'
  case fetching =>
    intro b u hu hpc'
    rcases move_attempts.mp hu with ⟨-, rfl⟩ | ⟨-, hu⟩
    · cases hpc'
    · exact hv.fetching b u hu hpc'
  case running =>
    intro row' hrow' hrun
    obtain rfl := self hrow'
    exact ⟨a, _, move_attempts.mpr (.inl ⟨rfl, rfl⟩), hlatest, rfl⟩
  case done =>
    intro b u row' hu hrow' hs
    obtain rfl := self hrow'
    exact absurd hs hnot
  case unborn =>
    intro h
    rw [show v.row = none from h] at hrow
    cases hrow
  case active =>
    intro row' hrow' hs p hp
    rcases hfiles p hp with hp | rfl
    · refine (hv.active row' hrow' hs p hp).imp_right (other_attempt ha fun h => ?_)
      rw [hpc] at h
      cases h.1
    · exact .inr ⟨a, _, move_attempts.mpr (.inl ⟨rfl, rfl⟩), rfl, rfl⟩
  case ended =>
    intro row' hrow' hs
    obtain rfl := self hrow'
    exact absurd hs hnot
  case cancelled =>
    intro row' hrow' hs p hp
    rcases hfiles p hp with hp | rfl
    · refine (hv.cancelled row' hrow' hs p hp).imp_right (other_attempt ha fun h => ?_)
      rw [hnone] at h
      cases h.2
    · exact .inr ⟨a, _, move_attempts.mpr (.inl ⟨rfl, rfl⟩), nofun, rfl⟩

/-- A new attempt takes over. -/
theorem Tended.claim (hv : v.Tended) {row : AudioRow} (hrow : v.row = some row)
    (hactive : row.status.isTerminal = false) (hreadable : row.readable = true)
    (hfree : v.attempts a = none) (hattempt : t.job.attempt = row.attempt + 1)
    (haudio : t.audioPath = row.audioPath) (hpc : t.pc = .renewing)
    (hrecording : ∀ b u, v.attempts b = some u → u.pc ≠ .recording) :
    Tended { v.move a t with
      row := some { row with
        status := .running, attempt := row.attempt + 1, leaseOwner := some t.worker } } := by
  have older : ∀ {b u}, v.attempts b = some u → u.job.attempt ≤ row.attempt := by
    intro b u hu
    obtain ⟨row', hrow', -, hle, -⟩ := hv.row b u hu
    rwa [Option.some.inj (hrow.symm.trans hrow')]
  have stale : ∀ {b u}, v.attempts b = some u → u.job.attempt ≠ row.attempt + 1 := fun hu he =>
    absurd (older hu) (by rw [he]; exact Nat.not_succ_le_self _)
  constructor
  case row =>
    intro b u hu
    refine ⟨_, rfl, ?_⟩
    rcases move_attempts.mp hu with ⟨-, rfl⟩ | ⟨-, hu⟩
    · rw [hattempt]
      exact ⟨Nat.succ_le_succ (Nat.zero_le _), Nat.le_refl _, hreadable⟩
    · obtain ⟨row', hrow', hpos, -⟩ := hv.row b u hu
      exact ⟨hpos, Nat.le_succ_of_le (older hu), hreadable⟩
  case one =>
    intro b c u w hu hw he
    rcases move_attempts.mp hu with ⟨rfl, rfl⟩ | ⟨-, hu₀⟩
    · rcases move_attempts.mp hw with ⟨rfl, -⟩ | ⟨-, hw₀⟩
      · rfl
      · exact absurd (he.symm.trans hattempt) (stale hw₀)
    · rcases move_attempts.mp hw with ⟨rfl, rfl⟩ | ⟨-, hw₀⟩
      · exact absurd (he.trans hattempt) (stale hu₀)
      · exact hv.one _ _ u w hu₀ hw₀ he
  case owner =>
    rintro b u _ hu ⟨⟩ he hrun
    rcases move_attempts.mp hu with ⟨-, rfl⟩ | ⟨-, hu⟩
    · rfl
    · exact absurd he (stale hu)
  case path =>
    rintro b u _ hu ⟨⟩ he hpc'
    rcases move_attempts.mp hu with ⟨-, rfl⟩ | ⟨-, hu⟩
    · exact haudio
    · exact absurd he (stale hu)
  case recording =>
    rintro b u _ hu ⟨⟩ hpc'
    rcases move_attempts.mp hu with ⟨-, rfl⟩ | ⟨-, hu⟩
    · rw [hpc] at hpc'
      cases hpc'
    · exact absurd hpc' (hrecording b u hu)
  case fetched =>
    intro b u hu hpc'
    rcases move_attempts.mp hu with ⟨-, rfl⟩ | ⟨-, hu⟩
    · rw [hpc] at hpc'
      cases hpc'
    · exact hv.fetched b u hu hpc'
  case fetching =>
    intro b u hu hpc'
    rcases move_attempts.mp hu with ⟨-, rfl⟩ | ⟨-, hu⟩
    · rw [hpc] at hpc'
      cases hpc'
    · exact hv.fetching b u hu hpc'
  case running =>
    rintro _ ⟨⟩ hrun
    exact ⟨a, t, move_attempts.mpr (.inl ⟨rfl, rfl⟩), hattempt, by rw [hpc]; rfl⟩
  case done =>
    rintro b u _ hu ⟨⟩ hs
    rcases hs with h | h <;> cases h
  case unborn => exact nofun
  case active =>
    rintro _ ⟨⟩ hs p hp
    refine (hv.active row hrow hactive p hp).imp_right fun ⟨b, u, hu, hpc', _⟩ => ?_
    exact absurd hpc' (hrecording b u hu)
  case ended =>
    rintro _ ⟨⟩ hs
    rcases hs with h | h <;> cases h
  case cancelled =>
    rintro _ ⟨⟩ hs
    cases hs

/-- An attempt ends. -/
theorem Tended.leave (hv : v.Tended) {deleteAudio : Bool} {files : Set Path}
    (ha : v.attempts a = some t) (hpc : t.pc = .leaving deleteAudio) (hfiles : files ⊆ v.files)
    (hgone : deleteAudio = true → ∀ p ∈ files, t.audioPath ≠ some p) :
    Tended { v with attempts := Function.update v.attempts a none, files } := by
  have old : ∀ {b u}, Function.update v.attempts a none b = some u → v.attempts b = some u :=
    fun hu => (update_none_eq_some.mp hu).2
  have other : ∀ {p : Task P → Prop}, ¬ p t → (∃ b u, v.attempts b = some u ∧ p u) →
      ∃ b u, Function.update v.attempts a none b = some u ∧ p u := by
    rintro p hp ⟨b, u, hu, hpu⟩
    refine ⟨b, u, update_none_eq_some.mpr ⟨?_, hu⟩, hpu⟩
    rintro rfl
    obtain rfl := Option.some.inj (ha.symm.trans hu)
    exact hp hpu
  constructor
  case row => exact fun b u hu => hv.row b u (old hu)
  case one => exact fun b c u w hu hw => hv.one b c u w (old hu) (old hw)
  case owner => exact fun b u row hu => hv.owner b u row (old hu)
  case path => exact fun b u row hu => hv.path b u row (old hu)
  case recording => exact fun b u row hu => hv.recording b u row (old hu)
  case fetched => exact fun b u hu => hv.fetched b u (old hu)
  case fetching => exact fun b u hu => hv.fetching b u (old hu)
  case running =>
    intro row hrow hrun
    refine other (fun h => ?_) (hv.running row hrow hrun)
    rw [hpc] at h
    cases h.2
  case done => exact fun b u row hu => hv.done b u row (old hu)
  case unborn => exact fun h p hp => hv.unborn h p (hfiles hp)
  case active =>
    intro row hrow hs p hp
    refine (hv.active row hrow hs p (hfiles hp)).imp_right (other fun h => ?_)
    rw [hpc] at h
    cases h.1
  case ended =>
    intro row hrow hs p hp
    refine other (fun h => ?_) (hv.ended row hrow hs p (hfiles hp))
    exact hgone (TaskPc.leaving.inj (hpc.symm.trans h.1)) p hp h.2
  case cancelled =>
    intro row hrow hs p hp
    refine (hv.cancelled row hrow hs p (hfiles hp)).imp_right (other fun h => ?_)
    cases deleteAudio with
    | false => exact h.1 hpc
    | true => exact hgone rfl p hp h.2

/-- A client cancels the job: somebody deletes its audio. -/
theorem Tended.cancel (hv : v.Tended) {row : AudioRow} {pending : Set Path}
    (hrow : v.row = some row) (hactive : row.status.isTerminal = false)
    (hnew : row.attempt = 0 → ∀ p ∈ row.audioPath, p ∈ pending)
    (hretry : row.status = .queued → 1 ≤ row.attempt → ∀ p ∈ row.audioPath,
      ∃ a t, v.attempts a = some t ∧ t.audioPath = some p ∧ ∀ d, t.pc ≠ .leaving d) :
    Tended { v with row := some { row with status := .cancelled, leaseOwner := none }, pending } := by
  constructor
  case row =>
    intro b u hu
    obtain ⟨row', hrow', hrest⟩ := hv.row b u hu
    obtain rfl := Option.some.inj (hrow.symm.trans hrow')
    exact ⟨_, rfl, hrest⟩
  case one => exact hv.one
  case owner =>
    rintro b u _ hu ⟨⟩ he hrun
    cases hrun
  case path =>
    rintro b u _ hu ⟨⟩ he hpc
    exact hv.path b u row hu hrow he hpc
  case recording =>
    rintro b u _ hu ⟨⟩ hpc
    exact hv.recording b u row hu hrow hpc
  case fetched => exact hv.fetched
  case fetching => exact hv.fetching
  case running =>
    rintro _ ⟨⟩ hrun
    cases hrun
  case done =>
    rintro b u _ hu ⟨⟩ hs
    rcases hs with h | h <;> cases h
  case unborn => exact nofun
  case active =>
    rintro _ ⟨⟩ hs
    cases hs
  case ended =>
    rintro _ ⟨⟩ hs
    rcases hs with h | h <;> cases h
  case cancelled =>
    rintro _ ⟨⟩ - p hp
    rcases hv.active row hrow hactive p hp with haudio | ⟨b, u, hu, hpc, haudio⟩
    · rcases Nat.eq_zero_or_pos row.attempt with h0 | hpos
      · exact .inl (hnew h0 p haudio)
      · refine .inr ?_
        cases hs : row.status with
        | queued =>
            obtain ⟨b, u, hu, hp', hpc⟩ := hretry hs hpos p haudio
            exact ⟨b, u, hu, hpc false, hp'⟩
        | running =>
            obtain ⟨b, u, hu, hlatest, hbusy⟩ := hv.running row hrow hs
            have hpc : u.pc ≠ .recording := fun hpc => by
              rw [(hv.recording b u row hu hrow hpc).2] at haudio
              cases haudio
            refine ⟨b, u, hu, fun h => ?_, (hv.path b u row hu hrow hlatest hpc).trans haudio⟩
            rw [h] at hbusy
            cases hbusy
        | _ => rw [hs] at hactive; cases hactive
    · refine .inr ⟨b, u, hu, ?_, haudio⟩
      rw [hpc]
      exact nofun

/-- Files disappear. -/
theorem Tended.aside (hv : v.Tended) {files pending : Set Path} (hfiles : files ⊆ v.files)
    (hpending : ∀ p ∈ files, p ∈ v.pending → p ∈ pending) :
    Tended { v with files, pending } where
  row := hv.row
  one := hv.one
  owner := hv.owner
  path := hv.path
  recording := hv.recording
  fetched := hv.fetched
  fetching := hv.fetching
  running := hv.running
  done := hv.done
  unborn h p hp := hv.unborn h p (hfiles hp)
  active row hrow hs p hp := hv.active row hrow hs p (hfiles hp)
  ended row hrow hs p hp := hv.ended row hrow hs p (hfiles hp)
  cancelled row hrow hs p hp := (hv.cancelled row hrow hs p (hfiles hp)).imp_left (hpending p hp)

theorem Tended.submit (hv : v.Tended) {upload : Option Path} {files : Set Path}
    (hrow : v.row = none) (hupload : v.upload = none)
    (hfiles : ∀ p ∈ files, p ∈ v.files ∨ upload = some p) : Tended { v with upload, files } := by
  have unborn : ∀ {row}, v.row ≠ some row := fun h => by
    rw [hrow] at h
    cases h
  constructor
  case row => exact hv.row
  case one => exact hv.one
  case owner => exact hv.owner
  case path => exact hv.path
  case recording => exact hv.recording
  case fetched => exact hv.fetched
  case fetching => exact hv.fetching
  case running => exact hv.running
  case done => exact hv.done
  case unborn =>
    intro _ p hp
    rcases hfiles p hp with hp | hp
    · have h := hv.unborn hrow p hp
      rw [hupload] at h
      cases h
    · exact hp
  case active => exact fun row h => absurd h unborn
  case ended => exact fun row h => absurd h unborn
  case cancelled => exact fun row h => absurd h unborn

/-- The row is created; no attempt was begun without one. -/
theorem Tended.create (hv : v.Tended) (hrow : v.row = none) {readable : Bool} :
    Tended { v with row := some ⟨.queued, 0, none, v.upload, readable⟩ } := by
  have none' : ∀ {b u}, v.attempts b ≠ some u := by
    intro b u hu
    obtain ⟨row, h, -⟩ := hv.row b u hu
    rw [hrow] at h
    cases h
  constructor
  case row => exact fun b u hu => absurd hu none'
  case one => exact hv.one
  case owner => exact fun b u row hu => absurd hu none'
  case path => exact fun b u row hu => absurd hu none'
  case recording => exact fun b u row hu => absurd hu none'
  case fetched => exact hv.fetched
  case fetching => exact hv.fetching
  case running =>
    rintro _ ⟨⟩ hrun
    cases hrun
  case done => exact fun b u row hu => absurd hu none'
  case unborn => exact nofun
  case active =>
    rintro _ ⟨⟩ - p hp
    exact .inl (hv.unborn hrow p hp)
  case ended =>
    rintro _ ⟨⟩ hs
    rcases hs with h | h <;> cases h
  case cancelled =>
    rintro _ ⟨⟩ hs
    cases hs

/-- A claim becomes a task. -/
theorem Tended.start (hv : v.Tended) {b : ℕ ⊕ WorkerId} (ha : v.attempts a = some t)
    (hb : v.attempts b = none) :
    Tended { v with
      attempts := Function.update (Function.update v.attempts a none) b (some t) } := by
  have old : ∀ {c u}, Function.update (Function.update v.attempts a none) b (some t) c = some u →
      ∃ d, v.attempts d = some u ∧ (c = b ∧ d = a ∨ c = d ∧ d ≠ a) := by
    intro c u hu
    rcases update_some_eq_some.mp hu with ⟨rfl, rfl⟩ | ⟨-, hu⟩
    · exact ⟨a, ha, .inl ⟨rfl, rfl⟩⟩
    · obtain ⟨hca, hu⟩ := update_none_eq_some.mp hu
      exact ⟨c, hu, .inr ⟨rfl, hca⟩⟩
  have new : ∀ {p : Task P → Prop}, (∃ d u, v.attempts d = some u ∧ p u) →
      ∃ c u, Function.update (Function.update v.attempts a none) b (some t) c = some u ∧ p u := by
    rintro p ⟨d, u, hu, hpu⟩
    by_cases hda : d = a
    · subst hda
      obtain rfl := Option.some.inj (ha.symm.trans hu)
      exact ⟨b, t, Function.update_self .., hpu⟩
    · refine ⟨d, u, update_some_eq_some.mpr (.inr ⟨?_, update_none_eq_some.mpr ⟨hda, hu⟩⟩), hpu⟩
      rintro rfl
      rw [hb] at hu
      cases hu
  constructor
  case row =>
    intro c u hu
    obtain ⟨d, hd, -⟩ := old hu
    exact hv.row d u hd
  case one =>
    intro c c' u w hu hw he
    obtain ⟨d, hd, hcd⟩ := old hu
    obtain ⟨d', hd', hcd'⟩ := old hw
    obtain rfl := hv.one d d' u w hd hd' he
    rcases hcd with ⟨rfl, rfl⟩ | ⟨rfl, hne⟩
    · rcases hcd' with ⟨rfl, -⟩ | ⟨-, hne⟩
      · rfl
      · exact absurd rfl hne
    · rcases hcd' with ⟨-, rfl⟩ | ⟨rfl, -⟩
      · exact absurd rfl hne
      · rfl
  case owner =>
    intro c u row hu
    obtain ⟨d, hd, -⟩ := old hu
    exact hv.owner d u row hd
  case path =>
    intro c u row hu
    obtain ⟨d, hd, -⟩ := old hu
    exact hv.path d u row hd
  case recording =>
    intro c u row hu
    obtain ⟨d, hd, -⟩ := old hu
    exact hv.recording d u row hd
  case fetched =>
    intro c u hu
    obtain ⟨d, hd, -⟩ := old hu
    exact hv.fetched d u hd
  case fetching =>
    intro c u hu
    obtain ⟨d, hd, -⟩ := old hu
    exact hv.fetching d u hd
  case running => exact fun row hrow hrun => new (hv.running row hrow hrun)
  case done =>
    intro c u row hu
    obtain ⟨d, hd, -⟩ := old hu
    exact hv.done d u row hd
  case unborn => exact hv.unborn
  case active => exact fun row hrow hs p hp => (hv.active row hrow hs p hp).imp_right new
  case ended => exact fun row hrow hs p hp => new (hv.ended row hrow hs p hp)
  case cancelled => exact fun row hrow hs p hp => (hv.cancelled row hrow hs p hp).imp_right new

/-- **Whatever happens to a job, its audio stays looked after.** -/
theorem Tended.step (hv : v.Tended) (h : v.Step v') : v'.Tended := by
  cases h with
  | aside files pending hfiles hpending => exact hv.aside hfiles hpending
  | submitted upload files hrow hupload hfiles => exact hv.submit hrow hupload hfiles
  | created readable hrow => exact hv.create hrow
  | claimed a t row hrow hactive hreadable hfree hattempt haudio hpc hrecording =>
      exact hv.claim hrow hactive hreadable hfree hattempt haudio hpc hrecording
  | started a b t ha hb => exact hv.start ha hb
  | kept a t pc ha hbusy hbusy' hrecording hrecording' hfetching =>
      refine hv.moved ha hrecording hrecording' hfetching (fun h => ?_) (fun _ => .inl hbusy')
        fun _ _ _ _ h => ?_
      · rw [h] at hbusy
        cases hbusy
      · rw [h] at hbusy'
        cases hbusy'
  | lost a t pc ha hbusy hrecording hpc hlost =>
      refine hv.moved ha hrecording ?_ ?_ (fun h => ?_) (fun _ => .inr hlost) fun _ _ _ _ h => ?_
      · rcases hpc with rfl | rfl <;> exact nofun
      · rcases hpc with rfl | rfl <;> exact nofun
      · rw [h] at hbusy
        cases hbusy
      · rcases hpc with rfl | rfl <;> cases h
  | asked a t deleteAudio ha hpc hdelete =>
      refine hv.moved ha ?_ nofun nofun ?_ (fun h => ?_) fun row hrow hs hreadable h => ?_
      · rw [hpc]
        exact nofun
      · rw [hpc]
        exact nofun
      · rw [hpc] at h
        cases h
      · rw [hdelete row hrow hs hreadable] at h
        cases h
  | fetched a t path files ha hpc hfiles hlatest => exact hv.fetch ha hpc hfiles hlatest
  | recorded a t path ha hpc haudio =>
      obtain ⟨row, hrow, -⟩ := hv.row a t ha
      rw [hrow]
      exact hv.record ha hpc haudio hrow
  | unrecorded a t ha hpc haudio => exact absurd haudio (hv.fetched a t ha hpc)
  | committed a t row status ha hpc hrow hrun hlatest hstatus =>
      exact hv.giveUp ha hpc hrow hrun hlatest (.inl ⟨hstatus, rfl⟩)
  | released a t row ha hpc hrow hrun hlatest =>
      exact hv.giveUp ha hpc hrow hrun hlatest (.inr ⟨rfl, rfl⟩)
  | left a t deleteAudio files ha hpc hfiles hgone => exact hv.leave ha hpc hfiles hgone
  | cancelled row pending hrow hactive hpending hnew hretry =>
      exact hv.cancel hrow hactive hnew hretry

end

end JobView

end Vemsa.Jobs
