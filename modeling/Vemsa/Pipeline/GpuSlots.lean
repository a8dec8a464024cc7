import Vemsa.Support.Locks

/-!
# Pipeline — GpuSlots

The pipeline threads of a worker: the GPU slots, the engine's lock around them, and the two caches of
loaded models with the locks that guard them.  What a thread does elsewhere is an `outside` operation,
which may raise; a stage of an engine call is followed by another one or not, whether it raised or not.

* `gpuSlots`: never more than `gpu_concurrency` threads run a model, every model that runs is the one
  its cache holds, and no model is stored twice.
* `stages_end`: the locks never deadlock; however the threads are scheduled, all stages end.
-/

namespace Vemsa.Pipeline.Gpu
open Vemsa.Support
open Vemsa.Support.Proc (ask raise withLock ofExcept)

/-- `EasyTranscriberEngine._lock`, `_stack_lock`, `Diarizer._lock` and `gpu._slots`. -/
inductive PipelineLock where
  | engine
  | stack
  | diarizer
  | slots
  deriving DecidableEq

/-- `(emissions_model, device)` -/
abbrev StackKey : Type := String × String

/-- `(ctc_model, processor)`, by what `from_pretrained` returned them. -/
abbrev AlignmentStack : Type := ℕ × ℕ

/-- A model run. -/
inductive ModelRun where
  /-- the easytranscriber pipeline -/
  | transcribe
  /-- the easyaligner pipeline on a stack, with the thread's own VAD instance -/
  | align (key : StackKey) (stack : AlignmentStack)
  /-- the pyannote pipeline -/
  | diarize (pipeline : ℕ)

/-- What touches neither locks nor caches. -/
inductive Outside where
  | importTorch
  | easyaligner
  | importTransformers
  | importPyannote
  | decodableAudio
  | audioDuration
  | vadModel
  | mkdir
  | temporaryDirectory
  | cleanup
  | unlink
  | moveToDevice

/-- What a pipeline thread asks. -/
inductive PipelineOp where
  /-- `_loaded_stacks.get(key)` -/
  | loadedStack (key : StackKey)
  | loadModel (key : StackKey)
  | loadProcessor (emissionsModel : String)
  /-- `_loaded_stacks[key] = stack` -/
  | storeStack (key : StackKey) (stack : AlignmentStack)
  /-- `self._pipeline is not None` -/
  | pipelineLoaded
  /-- `Pipeline.from_pretrained`, which may return `None` -/
  | loadPipeline
  | storePipeline (pipeline : ℕ)
  /-- the attribute that `self._pipeline(…)` calls -/
  | readPipeline
  | run (model : ModelRun)
  | outside (what : Outside)

inductive PipelineExc where
  | foreign (text : String)
  /-- `could not load … — is the model license accepted on Hugging Face and HF_TOKEN set?` -/
  | notAvailable (diarizationModel : String)
  /-- `'NoneType' object is not callable` -/
  | notCallable

def PipelineAnswer : PipelineOp → Type
  | .loadedStack _ => Option AlignmentStack
  | .loadModel _ | .loadProcessor _ => Except PipelineExc ℕ
  | .storeStack .. | .storePipeline _ => Unit
  | .pipelineLoaded => Bool
  | .loadPipeline => Except PipelineExc (Option ℕ)
  | .readPipeline => Option ℕ
  | .run _ | .outside _ => Except PipelineExc Unit

/-- `_loaded_stacks`, and `Diarizer._pipeline`. -/
structure Caches where
  loadedStacks : StackKey → Option AlignmentStack
  pipeline : Option ℕ

/-- What an operation does to the caches; `none` where they do not answer so. -/
def PipelineOp.effect : (o : PipelineOp) → PipelineAnswer o → Caches → Option Caches
  | loadedStack key, (r : Option AlignmentStack), c => if r = c.loadedStacks key then some c else none
  | storeStack key stack, _, c => some { c with loadedStacks := Function.update c.loadedStacks key (some stack) }
  | pipelineLoaded, (r : Bool), c => if r = c.pipeline.isSome then some c else none
  | storePipeline pipeline, _, c => some { c with pipeline := some pipeline }
  | readPipeline, (r : Option ℕ), c => if r = c.pipeline then some c else none
  | loadModel _, _, c | loadProcessor _, _, c | loadPipeline, _, c | run _, _, c | outside _, _, c =>
    some c

/-- What a pipeline thread runs. -/
abbrev PipelineProg (α : Type) : Type := Threaded PipelineLock PipelineAnswer PipelineExc α

def outside (what : Outside) : PipelineProg Unit :=
  ask (.own (.outside what)) fun (r : Except PipelineExc Unit) => ofExcept r

def runModel (model : ModelRun) : PipelineProg Unit :=
  ask (.own (.run model)) fun (r : Except PipelineExc Unit) => ofExcept r

def loadModel (key : StackKey) : PipelineProg ℕ :=
  ask (.own (.loadModel key)) fun (r : Except PipelineExc ℕ) => ofExcept r

def loadProcessor (emissionsModel : String) : PipelineProg ℕ :=
  ask (.own (.loadProcessor emissionsModel)) fun (r : Except PipelineExc ℕ) => ofExcept r

/-- `Pipeline.from_pretrained` -/
def loadPipeline : PipelineProg (Option ℕ) :=
  ask (.own .loadPipeline) fun (r : Except PipelineExc (Option ℕ)) => ofExcept r

/-- `with gpu_slot(): …` -/
def gpuSlot {α : Type} (p : PipelineProg α) : PipelineProg α := withLock .slots p

/-- `with (gpu_slot(), tempfile.TemporaryDirectory(…)): …` -/
def gpuSlotWithDirectory (model : ModelRun) : PipelineProg Unit :=
  gpuSlot ((outside .temporaryDirectory).bind fun _ => (runModel model).ending (outside .cleanup))

/-! ### The alignment stack -/

/-- The part of `_load_alignment_stack` under `_stack_lock`. -/
def loadStackLocked (key : StackKey) : PipelineProg AlignmentStack :=
  ask (.own (.loadedStack key)) fun (stack : Option AlignmentStack) =>
    match stack with
    | some stack => .pure stack
    | none =>
      (outside .importTransformers).bind fun _ =>
      (loadModel key).bind fun model =>
      (loadProcessor key.1).bind fun processor =>
      ask (.own (.storeStack key (model, processor))) fun _ => .pure (model, processor)

/-- `_load_alignment_stack` -/
def loadAlignmentStack (key : StackKey) : PipelineProg AlignmentStack :=
  ask (.own (.loadedStack key)) fun (stack : Option AlignmentStack) =>
    match stack with
    | some stack => .pure stack
    | none => withLock .stack (loadStackLocked key)

/-- `force_align_segments` -/
def forceAlignSegments (key : StackKey) : PipelineProg Unit :=
  (outside .importTorch).bind fun _ =>
  (outside .easyaligner).bind fun _ =>
  (outside .decodableAudio).bind fun _ =>
  ((outside .audioDuration).bind fun _ =>
    (loadAlignmentStack key).bind fun stack =>
    (outside .vadModel).bind fun _ =>
    (outside .mkdir).bind fun _ => gpuSlotWithDirectory (.align key stack)).ending (outside .unlink)

/-! ### Diarization -/

/-- The part of `Diarizer.load` under its lock. -/
def Diarizer.loadLocked (diarizationModel : String) : PipelineProg Unit :=
  ask (.own .pipelineLoaded) fun (loaded : Bool) =>
    if loaded then .pure ()
    else
      (outside .importPyannote).bind fun _ =>
      loadPipeline.bind fun pipeline =>
        match pipeline with
        | none => raise (.notAvailable diarizationModel)
        | some pipeline =>
          (outside .moveToDevice).bind fun _ => ask (.own (.storePipeline pipeline)) fun _ => .pure ()

/-- `Diarizer.load` -/
def Diarizer.load (diarizationModel : String) : PipelineProg Unit :=
  withLock .diarizer (Diarizer.loadLocked diarizationModel)

/-- `self._pipeline(str(decodable), **bounds)` -/
def Diarizer.callPipeline : PipelineProg Unit :=
  ask (.own .readPipeline) fun (pipeline : Option ℕ) =>
    match pipeline with
    | none => raise .notCallable
    | some pipeline => runModel (.diarize pipeline)

/-- `Diarizer._diarize` -/
def Diarizer.diarize (diarizationModel : String) : PipelineProg Unit :=
  (Diarizer.load diarizationModel).bind fun _ =>
  (outside .decodableAudio).bind fun _ => (gpuSlot Diarizer.callPipeline).ending (outside .unlink)

/-! ### Transcription in process -/

/-- The locked part of `EasyTranscriberEngine.transcribe`. -/
def transcribeLocked : PipelineProg Unit :=
  (outside .importTorch).bind fun _ =>
    withLock .engine ((outside .mkdir).bind fun _ => gpuSlotWithDirectory .transcribe)

/-! ### Threads -/

/-- A stage of an engine call. -/
inductive GpuStage where
  | transcribe
  | align (key : StackKey)
  | diarize (diarizationModel : String)
  /-- `warm_up` -/
  | load (diarizationModel : String)

def GpuStage.prog : GpuStage → PipelineProg Unit
  | transcribe => transcribeLocked
  | align key => forceAlignSegments key
  | diarize model => Diarizer.diarize model
  | load model => Diarizer.load model

/-- A sequence of stages; after one that raised, the call may go on, as `label_speakers` does. -/
def stages : List (GpuStage × Bool) → PipelineProg Unit
  | [] => .pure ()
  | (stage, caught) :: rest =>
    (if caught then stage.prog.guard fun _ => .pure () else stage.prog).bind fun _ => stages rest

/-- How often each lock can be taken; `gpu._slots` is configured with `gpu_concurrency`. -/
def lockCap (gpuConcurrency : ℕ) : PipelineLock → ℕ
  | .slots => gpuConcurrency
  | _ => 1

/-- Engine lock outer, GPU slot inner. -/
def lockRank : PipelineLock → ℕ
  | .slots => 1
  | _ => 0

/-- The pipeline threads, before anything is loaded. -/
def pipelineMachine (gpuConcurrency : ℕ) :=
  threadMachine PipelineOp.effect stages (lockCap gpuConcurrency) ⟨fun _ => none, none⟩

/-! ### The order of the locks -/

section Nested

variable {held : List PipelineLock}

theorem nested_outside (what : Outside) : (outside what).Nested lockRank held held :=
  fun r => Proc.nested_ofExcept r

theorem nested_runModel (model : ModelRun) : (runModel model).Nested lockRank held held :=
  fun r => Proc.nested_ofExcept r

theorem rank_slots (hheld : .slots ∉ held) : ∀ m ∈ held, lockRank m < lockRank .slots := by
  intro m hm
  cases m with
  | slots => exact absurd hm hheld
  | _ => decide

theorem nested_gpuSlotWithDirectory {model : ModelRun} (hheld : .slots ∉ held) :
    (gpuSlotWithDirectory model).Nested lockRank held held :=
  Proc.nested_withLock (rank_slots hheld) ((nested_outside _).bind fun _ =>
    (nested_runModel model).ending (nested_outside _))

theorem nested_loadAlignmentStack (key : StackKey) :
    (loadAlignmentStack key).Nested lockRank [] [] := by
  have hlocked : (loadStackLocked key).Nested lockRank [.stack] [.stack] := by
    intro stack
    cases stack with
    | some stack => rfl
    | none =>
        exact (nested_outside _).bind fun _ => Proc.Nested.bind (fun r => Proc.nested_ofExcept r)
          fun model => Proc.Nested.bind (fun r => Proc.nested_ofExcept r) fun processor _ => rfl
  intro stack
  cases stack with
  | some stack => rfl
  | none => exact Proc.nested_withLock (by simp) hlocked

theorem nested_load (diarizationModel : String) :
    (Diarizer.load diarizationModel).Nested lockRank [] [] := by
  refine Proc.nested_withLock (by simp) fun (loaded : Bool) => ?_
  cases loaded with
  | true => rfl
  | false =>
      refine (nested_outside _).bind fun _ => Proc.Nested.bind (fun r => Proc.nested_ofExcept r)
        fun pipeline => ?_
      cases pipeline with
      | none => rfl
      | some pipeline => exact (nested_outside _).bind fun _ _ => rfl

theorem nested_callPipeline : Diarizer.callPipeline.Nested lockRank held held := by
  intro pipeline
  cases pipeline with
  | none => rfl
  | some pipeline => exact nested_runModel _

theorem nested_diarize (diarizationModel : String) :
    (Diarizer.diarize diarizationModel).Nested lockRank [] [] :=
  (nested_load _).bind fun _ => (nested_outside _).bind fun _ =>
    (Proc.nested_withLock (by simp) nested_callPipeline).ending (nested_outside _)

theorem nested_stage (stage : GpuStage) : stage.prog.Nested lockRank [] [] := by
  cases stage with
  | transcribe =>
      exact (nested_outside _).bind fun _ => Proc.nested_withLock (by simp)
        ((nested_outside _).bind fun _ => nested_gpuSlotWithDirectory (by simp))
  | align key =>
      exact (nested_outside _).bind fun _ => (nested_outside _).bind fun _ =>
        (nested_outside _).bind fun _ => ((nested_outside _).bind fun _ =>
          (nested_loadAlignmentStack key).bind fun _ => (nested_outside _).bind fun _ =>
            (nested_outside _).bind fun _ => nested_gpuSlotWithDirectory (by simp)).ending
              (nested_outside _)
  | diarize model => exact nested_diarize model
  | load model => exact nested_load model

/-- **Every call takes the locks in order.** -/
theorem nested_stages (l : List (GpuStage × Bool)) : (stages l).Nested lockRank [] [] := by
  induction l with
  | nil => rfl
  | cons x rest ih =>
      obtain ⟨stage, caught⟩ := x
      cases caught with
      | false => exact (nested_stage stage).bind fun _ => ih
      | true => exact ((nested_stage stage).guard (f := fun _ => .pure ()) fun _ => rfl).bind fun _ => ih

end Nested

/-! ### What a thread relies on -/

/-- The caches only grow. -/
structure Grown (c c' : Caches) : Prop where
  stacks_kept : ∀ key stack, c.loadedStacks key = some stack → c'.loadedStacks key = some stack
  pipeline_kept : ∀ p, c.pipeline = some p → c'.pipeline = some p

/-- What other threads may do to the caches while a thread holds `held`: nothing to a cache whose lock
it holds. -/
structure Relied (held : List PipelineLock) (c c' : Caches) : Prop extends Grown c c' where
  stacks_mine : .stack ∈ held → c'.loadedStacks = c.loadedStacks
  pipeline_mine : .diarizer ∈ held → c'.pipeline = c.pipeline

/-- A model runs inside a GPU slot, and it is the one its cache holds. -/
def Runs (held : List PipelineLock) (c : Caches) : ModelRun → Prop
  | .transcribe => .slots ∈ held ∧ .engine ∈ held
  | .align key stack => .slots ∈ held ∧ c.loadedStacks key = some stack
  | .diarize p => .slots ∈ held ∧ c.pipeline = some p

/-- What an operation does. -/
def Does (held : List PipelineLock) (c c' : Caches) : (o : PipelineOp) → PipelineAnswer o → Prop
  | .storeStack key stack, _ => .stack ∈ held ∧ c.loadedStacks key = none ∧
      c' = { c with loadedStacks := Function.update c.loadedStacks key (some stack) }
  | .storePipeline p, _ => .diarizer ∈ held ∧ c.pipeline = none ∧ c' = { c with pipeline := some p }
  | .readPipeline, (r : Option ℕ) => c' = c ∧ r = c.pipeline ∧ r.isSome
  | .run model, _ => c' = c ∧ Runs held c model
  | .loadedStack _, _ | .loadModel _, _ | .loadProcessor _, _ | .pipelineLoaded, _ | .loadPipeline, _
  | .outside _, _ => c' = c

theorem Grown.trans {c c' c'' : Caches} (h : Grown c c') (h' : Grown c' c'') : Grown c c'' where
  stacks_kept key stack hs := h'.stacks_kept key stack (h.stacks_kept key stack hs)
  pipeline_kept p hp := h'.pipeline_kept p (h.pipeline_kept p hp)

theorem Grown.store {c : Caches} {key : StackKey} {stack : AlignmentStack}
    (hnone : c.loadedStacks key = none) :
    Grown c { c with loadedStacks := Function.update c.loadedStacks key (some stack) } := by
  refine ⟨fun key' stack' hs => ?_, fun _ => id⟩
  have hne : key' ≠ key := by
    rintro rfl
    rw [hnone] at hs
    cases hs
  exact (Function.update_of_ne hne _ _).trans hs

theorem Grown.storePipeline {c : Caches} {p : ℕ} (hnone : c.pipeline = none) :
    Grown c { c with pipeline := some p } := by
  refine ⟨fun _ _ => id, fun p' hp => ?_⟩
  rw [hnone] at hp
  cases hp

theorem Relied.refl (held : List PipelineLock) (c : Caches) : Relied held c c :=
  ⟨⟨fun _ _ => id, fun _ => id⟩, fun _ => rfl, fun _ => rfl⟩

theorem Relied.fewer {held : List PipelineLock} {l : PipelineLock} {c c' : Caches}
    (h : Relied (l :: held) c c') : Relied held c c' :=
  { h with
    stacks_mine := fun hm => h.stacks_mine (List.mem_cons_of_mem _ hm)
    pipeline_mine := fun hm => h.pipeline_mine (List.mem_cons_of_mem _ hm) }

theorem Relied.trans {held : List PipelineLock} {c c' c'' : Caches} (h : Relied held c c')
    (h' : Relied held c' c'') : Relied held c c'' where
  toGrown := h.toGrown.trans h'.toGrown
  stacks_mine hm := (h'.stacks_mine hm).trans (h.stacks_mine hm)
  pipeline_mine hm := (h'.pipeline_mine hm).trans (h.pipeline_mine hm)

theorem Runs.later {held : List PipelineLock} {c c' : Caches} {model : ModelRun}
    (h : Runs held c model) (hc : Grown c c') : Runs held c' model := by
  cases model with
  | transcribe => exact h
  | align key stack => exact ⟨h.1, hc.stacks_kept key stack h.2⟩
  | diarize p => exact ⟨h.1, hc.pipeline_kept p h.2⟩

/-- Only the thread that stores into a cache holds its lock. -/
theorem compatible (gpuConcurrency : ℕ) :
    Compatible Relied (fun held o r c c' => Does held c c' o r) (lockCap gpuConcurrency) where
  refl := Relied.refl
  trans _ _ _ _ := Relied.trans
  fewer _ _ _ _ := Relied.fewer
  guar_rely held held' o r c c' hone hdoes := by
    cases o with
    | storeStack key stack =>
        obtain ⟨hheld, hnone, rfl⟩ := hdoes
        exact ⟨.store hnone, fun hm => absurd (hone _ hheld hm) (by simp [lockCap]), fun _ => rfl⟩
    | storePipeline p =>
        obtain ⟨hheld, hnone, rfl⟩ := hdoes
        exact ⟨.storePipeline hnone, fun _ => rfl,
          fun hm => absurd (hone _ hheld hm) (by simp [lockCap])⟩
    | readPipeline | run => exact hdoes.1 ▸ Relied.refl held' c
    | _ => exact hdoes ▸ Relied.refl held' c

/-- `Proc.Safe` among the pipeline threads. -/
abbrev Safely {α : Type} (Q : α → List PipelineLock → Caches → Prop) (p : PipelineProg α)
    (held : List PipelineLock) (c : Caches) : Prop :=
  p.Safe PipelineOp.effect Relied (fun held o r c c' => Does held c c' o r) Q held c

section Safety

variable {held : List PipelineLock} {c : Caches}

/-- It gave back what it took, and added to the caches only. -/
def Back (held : List PipelineLock) (c : Caches) : List PipelineLock → Caches → Prop :=
  fun held' c' => held' = held ∧ Relied held c c'

theorem safely_ofExcept {α : Type} (held : List PipelineLock) (c : Caches) (r : Except PipelineExc α) :
    Safely (fun _ => Back held c) (ofExcept r) held c := by
  cases r with
  | ok a => exact fun c' hc' => ⟨rfl, hc'⟩
  | error e => trivial

theorem safely_outside (what : Outside) : Safely (fun _ => Back held c) (outside what) held c := by
  intro c₁ h₁ r c₂ heff
  obtain rfl : c₁ = c₂ := Option.some.inj heff
  exact ⟨rfl, (safely_ofExcept held c₁ r).mono fun _ _ _ h => ⟨h.1, h₁.trans h.2⟩⟩

theorem safely_runModel (model : ModelRun) (hmodel : Runs held c model) :
    Safely (fun _ => Back held c) (runModel model) held c := by
  intro c₁ h₁ r c₂ heff
  obtain rfl : c₁ = c₂ := Option.some.inj heff
  exact ⟨⟨rfl, hmodel.later h₁.toGrown⟩,
    (safely_ofExcept held c₁ r).mono fun _ _ _ h => ⟨h.1, h₁.trans h.2⟩⟩

/-- What `from_pretrained` returns is nobody else's yet. -/
theorem safely_loadModel (key : StackKey) :
    Safely (fun _ => Back held c) (loadModel key) held c := by
  intro c₁ h₁ r c₂ heff
  obtain rfl : c₁ = c₂ := Option.some.inj heff
  exact ⟨rfl, (safely_ofExcept held c₁ r).mono fun _ _ _ h => ⟨h.1, h₁.trans h.2⟩⟩

theorem safely_loadProcessor (emissionsModel : String) :
    Safely (fun _ => Back held c) (loadProcessor emissionsModel) held c := by
  intro c₁ h₁ r c₂ heff
  obtain rfl : c₁ = c₂ := Option.some.inj heff
  exact ⟨rfl, (safely_ofExcept held c₁ r).mono fun _ _ _ h => ⟨h.1, h₁.trans h.2⟩⟩

theorem safely_loadPipeline : Safely (fun _ => Back held c) loadPipeline held c := by
  intro c₁ h₁ r c₂ heff
  obtain rfl : c₁ = c₂ := Option.some.inj heff
  exact ⟨rfl, (safely_ofExcept held c₁ r).mono fun _ _ _ h => ⟨h.1, h₁.trans h.2⟩⟩

/-- **With the lock held** the second look at the cache stays true until the store. -/
theorem safely_loadStackLocked {key : StackKey} (hheld : .stack ∈ held) :
    Safely (fun stack held' c' => held' = held ∧ Grown c c' ∧ c'.loadedStacks key = some stack)
      (loadStackLocked key) held c := by
  have hcomp := compatible 1
  intro c₁ h₁ (r : Option AlignmentStack) c₂ heff
  simp only [PipelineOp.effect, Option.ite_none_right_eq_some, Option.some.injEq] at heff
  obtain ⟨hr, rfl⟩ := heff
  refine ⟨rfl, ?_⟩
  cases r with
  | some stack =>
      exact fun c' hc' => ⟨rfl, (h₁.trans hc').toGrown, hc'.stacks_kept key stack hr.symm⟩
  | none =>
      refine (safely_outside _).bind hcomp ?_
      rintro _ _ c₂ ⟨rfl, h₂⟩
      refine (safely_loadModel key).bind hcomp ?_
      rintro model _ c₃ ⟨rfl, h₃⟩
      refine (safely_loadProcessor _).bind hcomp ?_
      rintro processor _ c₄ ⟨rfl, h₄⟩ c₅ h₅ _ c₆ heff
      cases heff
      have hrel := ((h₂.trans h₃).trans h₄).trans h₅
      have hnone : c₅.loadedStacks key = none := by rw [hrel.stacks_mine hheld, ← hr]
      refine ⟨⟨hheld, hnone, rfl⟩, fun c' hc' => ⟨rfl, ?_, ?_⟩⟩
      · exact ((h₁.trans hrel).toGrown.trans (.store hnone)).trans hc'.toGrown
      · exact hc'.stacks_kept key _ (Function.update_self ..)

theorem safely_loadAlignmentStack {key : StackKey} :
    Safely (fun stack held' c' => held' = held ∧ Grown c c' ∧ c'.loadedStacks key = some stack)
      (loadAlignmentStack key) held c := by
  have hcomp := compatible 1
  intro c₁ h₁ (r : Option AlignmentStack) c₂ heff
  simp only [PipelineOp.effect, Option.ite_none_right_eq_some, Option.some.injEq] at heff
  obtain ⟨hr, rfl⟩ := heff
  refine ⟨rfl, ?_⟩
  cases r with
  | some stack =>
      exact fun c' hc' => ⟨rfl, (h₁.trans hc').toGrown, hc'.stacks_kept key stack hr.symm⟩
  | none =>
      refine Proc.safe_withLock hcomp fun c₂ h₂ =>
        (safely_loadStackLocked (List.mem_cons_self ..)).mono ?_
      rintro stack _ c₃ ⟨rfl, h₃, hstack⟩
      exact ⟨rfl, fun c₄ h₄ => ⟨rfl, ((h₁.trans h₂).toGrown.trans h₃).trans h₄.toGrown,
        h₄.stacks_kept key stack hstack⟩⟩

/-- It gave back what it took, and the caches only grew. -/
def Returned (held : List PipelineLock) (c : Caches) : List PipelineLock → Caches → Prop :=
  fun held' c' => held' = held ∧ Grown c c'

theorem safely_gpuSlotWithDirectory (model : ModelRun) (hmodel : Runs (.slots :: held) c model) :
    Safely (fun _ => Returned held c) (gpuSlotWithDirectory model) held c := by
  have hcomp := compatible 1
  refine Proc.safe_withLock hcomp fun c₁ h₁ => (safely_outside _).bind hcomp ?_
  rintro _ _ c₂ ⟨rfl, h₂⟩
  refine (Proc.Safe.ending hcomp
    (safely_runModel model ((hmodel.later h₁.toGrown).later h₂.toGrown)) (fun held s => safely_outside _)
    fun _ _ _ _ ha h => ⟨ha.1, ha.2.trans (ha.1 ▸ h)⟩).mono ?_
  rintro _ _ c₃ ⟨rfl, h₃⟩
  exact ⟨rfl, fun c₄ h₄ => ⟨rfl, ((h₁.toGrown.trans h₂.toGrown).trans h₃.toGrown).trans h₄.toGrown⟩⟩

/-- `finally: decodable.unlink(missing_ok=True)` -/
theorem safely_unlinking {α : Type} {p : PipelineProg α}
    (hp : Safely (fun _ => Returned held c) p held c) :
    Safely (fun _ => Returned held c) (p.ending (outside .unlink)) held c :=
  Proc.Safe.ending (compatible 1) hp (fun _ _ => safely_outside _) fun _ _ _ _ ha h =>
    ⟨ha.1, ha.2.trans (ha.1 ▸ h).toGrown⟩

theorem safely_forceAlignSegments (key : StackKey) :
    Safely (fun _ => Returned held c) (forceAlignSegments key) held c := by
  have hcomp := compatible 1
  refine (safely_outside _).bind hcomp ?_
  rintro _ _ c₁ ⟨rfl, h₁⟩
  refine (safely_outside _).bind hcomp ?_
  rintro _ _ c₂ ⟨rfl, h₂⟩
  refine (safely_outside _).bind hcomp ?_
  rintro _ _ c₃ ⟨rfl, h₃⟩
  refine (safely_unlinking ((safely_outside _).bind hcomp ?_)).mono fun _ _ _ h =>
    ⟨h.1, ((h₁.trans h₂).trans h₃).toGrown.trans h.2⟩
  rintro _ _ c₄ ⟨rfl, h₄⟩
  refine safely_loadAlignmentStack.bind hcomp ?_
  rintro stack _ c₅ ⟨rfl, h₅, hstack⟩
  refine (safely_outside _).bind hcomp ?_
  rintro _ _ c₆ ⟨rfl, h₆⟩
  refine (safely_outside _).bind hcomp ?_
  rintro _ _ c₇ ⟨rfl, h₇⟩
  have hstored := (h₆.trans h₇).stacks_kept key stack hstack
  exact (safely_gpuSlotWithDirectory (.align key stack) ⟨List.mem_cons_self .., hstored⟩).mono fun _ _ _ h =>
    ⟨h.1, (h₄.toGrown.trans h₅).trans ((h₆.trans h₇).toGrown.trans h.2)⟩

theorem safely_load (diarizationModel : String) :
    Safely (fun _ held' c' => Returned held c held' c' ∧ c'.pipeline.isSome)
      (Diarizer.load diarizationModel) held c := by
  have hcomp := compatible 1
  refine Proc.safe_withLock hcomp fun c₁ h₁ => Proc.Safe.mono (Q := fun _ held' c' =>
    held' = .diarizer :: held ∧ Grown c₁ c' ∧ c'.pipeline.isSome) ?_ ?_
  · intro c₂ h₂ (loaded : Bool) c₃ heff
    simp only [PipelineOp.effect, Option.ite_none_right_eq_some, Option.some.injEq] at heff
    obtain ⟨hr, rfl⟩ := heff
    refine ⟨rfl, ?_⟩
    cases loaded with
    | true =>
        refine fun c' hc' => ⟨rfl, (h₂.trans hc').toGrown, ?_⟩
        rw [hc'.pipeline_mine (List.mem_cons_self ..)]
        exact hr.symm
    | false =>
        refine (safely_outside _).bind hcomp ?_
        rintro _ _ c₃ ⟨rfl, h₃⟩
        refine safely_loadPipeline.bind hcomp ?_
        rintro pipeline _ c₄ ⟨rfl, h₄⟩
        cases pipeline with
        | none => trivial
        | some pipeline =>
            refine (safely_outside _).bind hcomp ?_
            rintro _ _ c₅ ⟨rfl, h₅⟩ c₆ h₆ _ c₇ heff
            cases heff
            have hrel := ((h₃.trans h₄).trans h₅).trans h₆
            have hnone : c₆.pipeline = none := by
              rw [hrel.pipeline_mine (List.mem_cons_self ..)]
              simpa using hr
            refine ⟨⟨List.mem_cons_self .., hnone, rfl⟩, fun c' hc' => ⟨rfl, ?_, ?_⟩⟩
            · exact ((h₂.trans hrel).toGrown.trans (.storePipeline hnone)).trans hc'.toGrown
            · rw [hc'.pipeline_mine (List.mem_cons_self ..)]
              rfl
  · rintro _ _ c₂ ⟨rfl, h₂, hsome⟩
    refine ⟨rfl, fun c₃ h₃ => ⟨⟨rfl, (h₁.toGrown.trans h₂).trans h₃.toGrown⟩, ?_⟩⟩
    obtain ⟨p, hp⟩ := Option.isSome_iff_exists.mp hsome
    exact Option.isSome_iff_exists.mpr ⟨p, h₃.pipeline_kept p hp⟩

/-- **Inside the slot** the pipeline is there. -/
theorem safely_callPipeline (hslots : .slots ∈ held) (hsome : c.pipeline.isSome) :
    Safely (fun _ => Back held c) Diarizer.callPipeline held c := by
  intro c₁ h₁ (r : Option ℕ) c₂ heff
  simp only [PipelineOp.effect, Option.ite_none_right_eq_some, Option.some.injEq] at heff
  obtain ⟨hr, rfl⟩ := heff
  obtain ⟨p, hp⟩ := Option.isSome_iff_exists.mp hsome
  have hp₁ := h₁.pipeline_kept p hp
  rw [hp₁] at hr
  subst hr
  exact ⟨⟨rfl, hp₁.symm, rfl⟩, (safely_runModel (.diarize p) ⟨hslots, hp₁⟩).mono
    fun _ _ _ h => ⟨h.1, h₁.trans h.2⟩⟩

theorem safely_diarize (diarizationModel : String) :
    Safely (fun _ => Returned held c) (Diarizer.diarize diarizationModel) held c := by
  have hcomp := compatible 1
  refine (safely_load _).bind hcomp ?_
  rintro _ _ c₁ ⟨⟨rfl, h₁⟩, hsome⟩
  refine (safely_outside _).bind hcomp ?_
  rintro _ _ c₂ ⟨rfl, h₂⟩
  refine (safely_unlinking (Proc.safe_withLock hcomp fun c₃ h₃ => ?_)).mono fun _ _ _ h =>
    ⟨h.1, (h₁.trans h₂.toGrown).trans h.2⟩
  have hthere : c₃.pipeline.isSome := by
    obtain ⟨p, hp⟩ := Option.isSome_iff_exists.mp hsome
    exact Option.isSome_iff_exists.mpr ⟨p, (h₂.trans h₃).pipeline_kept p hp⟩
  refine (safely_callPipeline (List.mem_cons_self ..) hthere).mono ?_
  rintro _ _ c₄ ⟨rfl, h₄⟩
  exact ⟨rfl, fun c₅ h₅ => ⟨rfl, (h₃.toGrown.trans h₄.toGrown).trans h₅.toGrown⟩⟩

theorem safely_transcribeLocked : Safely (fun _ => Returned held c) transcribeLocked held c := by
  have hcomp := compatible 1
  refine (safely_outside _).bind hcomp ?_
  rintro _ _ c₁ ⟨rfl, h₁⟩
  refine Proc.safe_withLock hcomp fun c₂ h₂ => (safely_outside _).bind hcomp ?_
  rintro _ _ c₃ ⟨rfl, h₃⟩
  refine (safely_gpuSlotWithDirectory .transcribe ⟨List.mem_cons_self .., by simp⟩).mono ?_
  rintro _ _ c₄ ⟨rfl, h₄⟩
  exact ⟨rfl, fun c₅ h₅ =>
    ⟨rfl, (h₁.trans h₂).toGrown.trans ((h₃.toGrown.trans h₄).trans h₅.toGrown)⟩⟩

theorem safely_stage (stage : GpuStage) : Safely (fun _ => Returned held c) stage.prog held c := by
  cases stage with
  | transcribe => exact safely_transcribeLocked
  | align key => exact safely_forceAlignSegments key
  | diarize model => exact safely_diarize model
  | load model => exact (safely_load model).mono fun _ _ _ h => h.1

/-- **Every call does as it guarantees.** -/
theorem safely_stages (l : List (GpuStage × Bool)) :
    Safely (fun _ _ _ => True) (stages l) held c := by
  induction l generalizing held c with
  | nil => exact fun _ _ => trivial
  | cons x rest ih =>
      obtain ⟨stage, caught⟩ := x
      have hstage : Safely (fun _ _ _ => True) stage.prog held c :=
        (safely_stage stage).mono fun _ _ _ _ => trivial
      cases caught with
      | false => exact hstage.bind (compatible 1) fun _ _ _ _ => ih
      | true =>
          exact (hstage.guard (f := fun _ => .pure ()) fun _ _ _ _ _ => trivial).bind (compatible 1)
            fun _ _ _ _ => ih

end Safety

/-! ### Runs -/

section Runs

variable {gpuConcurrency : ℕ}

/-- The pipeline threads of a process. -/
abbrev PipelineThreads : Type := Threads PipelineLock PipelineAnswer PipelineExc Unit Caches

abbrev PipelineLog : Type :=
  List (Entry PipelineThreads (ThreadEvent (List (GpuStage × Bool)) PipelineAnswer)
    (Option ((o : LockOp PipelineLock PipelineOp) × LockAnswer PipelineLock PipelineAnswer o)))

/-- The thread is about to run a model. -/
def inModel (t : Thread PipelineLock PipelineAnswer PipelineExc Unit) : Bool :=
  match t.prog with
  | .ask (.own (.run _)) _ => true
  | _ => false

/-- What was stored for a key. -/
def storedStacks (key : StackKey) (h : PipelineLog) : List AlignmentStack :=
  h.filterMap fun x =>
    match x.reply with
    | some ⟨.own (.storeStack key' stack), _⟩ => if key' = key then some stack else none
    | _ => none

def storedPipelines (h : PipelineLog) : List ℕ :=
  h.filterMap fun x =>
    match x.reply with
    | some ⟨.own (.storePipeline p), _⟩ => some p
    | _ => none

/-- The models that were run. -/
def modelRuns (h : PipelineLog) : List ModelRun :=
  h.filterMap fun x =>
    match x.reply with
    | some ⟨.own (.run model), _⟩ => some model
    | _ => none

/-- The model is the one that is cached. -/
def IsCached (c : Caches) : ModelRun → Prop
  | .transcribe => True
  | .align key stack => c.loadedStacks key = some stack
  | .diarize p => c.pipeline = some p

/-- **The GPU slots and the model caches of a process.** -/
structure GpuShared (gpuConcurrency : ℕ) (h : PipelineLog) (s : PipelineThreads) : Prop where
  /-- no more threads run a model than there are slots -/
  in_model : s.threads.countP inModel ≤ gpuConcurrency
  /-- a model is stored once and stays -/
  one_stack : ∀ key, storedStacks key h = (s.shared.loadedStacks key).toList
  one_pipeline : storedPipelines h = s.shared.pipeline.toList
  /-- every run was on the model that is stored -/
  runs : ∀ model ∈ modelRuns h, IsCached s.shared model
  /-- `self._pipeline` is never called before it is loaded -/
  loaded : ∀ x ∈ h, ∀ r : Option ℕ, x.reply = some ⟨.own .readPipeline, r⟩ → r.isSome

theorem IsCached.later {c c' : Caches} {model : ModelRun} (h : IsCached c model) (hc : Grown c c') :
    IsCached c' model := by
  cases model with
  | transcribe => trivial
  | align key stack => exact hc.stacks_kept key stack h
  | diarize p => exact hc.pipeline_kept p h

/-- What the log says of the caches. -/
structure Told (h : PipelineLog) (c : Caches) : Prop where
  one_stack : ∀ key, storedStacks key h = (c.loadedStacks key).toList
  one_pipeline : storedPipelines h = c.pipeline.toList
  runs : ∀ model ∈ modelRuns h, IsCached c model

/-- A step that stores nothing. -/
theorem Told.quiet {h : PipelineLog} {x} {c : Caches} (ht : Told h c) (hs : ∀ key, storedStacks key [x] = [])
    (hp : storedPipelines [x] = []) (hr : ∀ model ∈ modelRuns [x], IsCached c model) :
    Told (h ++ [x]) c := by
  refine ⟨fun key => ?_, ?_, fun model hmodel => ?_⟩
  · rw [storedStacks, List.filterMap_append]
    exact (congrArg₂ (· ++ ·) (ht.one_stack key) (hs key)).trans (List.append_nil _)
  · rw [storedPipelines, List.filterMap_append]
    exact (congrArg₂ (· ++ ·) ht.one_pipeline hp).trans (List.append_nil _)
  · rw [modelRuns, List.filterMap_append] at hmodel
    exact (List.mem_append.mp hmodel).elim (ht.runs model) (hr model)

/-- **One step.** -/
theorem Told.step {h : PipelineLog} {x} (ht : Told h x.before.shared) {held : List PipelineLock}
    (hk : Threads.Kept (fun held o r c c' => Does held c c' o r) held x.reply x.before.shared
      x.after.shared) : Told (h ++ [x]) x.after.shared := by
  obtain ⟨before, event, reply, after⟩ := x
  simp only at hk ht ⊢
  obtain _ | ⟨l | l | o, r⟩ := reply
  · rw [show after.shared = before.shared from hk]
    exact ht.quiet (fun _ => rfl) rfl nofun
  · rw [show after.shared = before.shared from hk]
    exact ht.quiet (fun _ => rfl) rfl nofun
  · rw [show after.shared = before.shared from hk]
    exact ht.quiet (fun _ => rfl) rfl nofun
  · cases o with
    | storeStack key stack =>
        obtain ⟨-, hnone, hafter⟩ := hk
        rw [hafter]
        refine ⟨fun key' => ?_, ?_, fun model hmodel => ?_⟩
        · rw [storedStacks, List.filterMap_append]
          refine (congrArg (· ++ _) (ht.one_stack key')).trans ?_
          obtain rfl | hne := eq_or_ne key' key
          · simp [hnone]
          · simp [Function.update_of_ne hne, hne.symm]
        · rw [storedPipelines, List.filterMap_append]
          exact (List.append_nil _).trans ht.one_pipeline
        · rw [modelRuns, List.filterMap_append] at hmodel
          obtain hmodel | hmodel := List.mem_append.mp hmodel
          · exact (ht.runs model hmodel).later (.store hnone)
          · cases hmodel
    | storePipeline p =>
        obtain ⟨-, hnone, hafter⟩ := hk
        rw [hafter]
        refine ⟨fun key' => ?_, ?_, fun model hmodel => ?_⟩
        · rw [storedStacks, List.filterMap_append]
          exact (List.append_nil _).trans (ht.one_stack key')
        · rw [storedPipelines, List.filterMap_append]
          refine (congrArg (· ++ _) ht.one_pipeline).trans ?_
          simp [hnone]
        · rw [modelRuns, List.filterMap_append] at hmodel
          obtain hmodel | hmodel := List.mem_append.mp hmodel
          · exact (ht.runs model hmodel).later (.storePipeline hnone)
          · cases hmodel
    | readPipeline =>
        rw [hk.1]
        exact ht.quiet (fun _ => rfl) rfl nofun
    | run model =>
        obtain ⟨hsame, hruns⟩ := hk
        rw [hsame]
        refine ht.quiet (fun _ => rfl) rfl fun model' hmodel => ?_
        obtain rfl := List.mem_singleton.mp hmodel
        cases model' with
        | transcribe => trivial
        | align key stack => exact hruns.2
        | diarize p => exact hruns.2
    | _ =>
        rw [show after.shared = before.shared from hk]
        exact ht.quiet (fun _ => rfl) rfl nofun

theorem told {h : PipelineLog} {s : PipelineThreads}
    (run : (pipelineMachine gpuConcurrency).Run h s) : Told h s.shared := by
  refine Machine.Run.invariant (I := fun h s => Told h s.shared) ⟨fun _ => rfl, rfl, nofun⟩
    (fun h s e s' r run ih hstep => ?_) run
  have hlast := Threads.guaranteed (compatible gpuConcurrency) nested_stages
    (fun l _ => safely_stages l) (Machine.Path.snoc run hstep) ⟨s, e, r, s'⟩ (by simp)
  obtain ⟨held, hk⟩ := hlast
  exact ih.step hk

/-- A thread that runs a model is in a slot. -/
theorem slots_of_inModel {t : Thread PipelineLock PipelineAnswer PipelineExc Unit} {c : Caches}
    (hsafe : Safely (fun _ _ _ => True) t.prog t.held c) (ht : inModel t = true) : .slots ∈ t.held := by
  obtain ⟨held, prog⟩ := t
  unfold inModel at ht
  split at ht
  case h_1 model k hprog =>
    obtain rfl : prog = .ask (.own (.run model)) k := hprog
    obtain ⟨⟨-, hruns⟩, -⟩ := hsafe c (Relied.refl held c) (.ok () : Except PipelineExc Unit) c rfl
    cases model with
    | transcribe => exact hruns.1
    | align key stack => exact hruns.1
    | diarize p => exact hruns.1
  case h_2 => cases ht

/-- **In every run of the pipeline threads.** -/
theorem gpuShared {h : PipelineLog} {s : PipelineThreads}
    (run : (pipelineMachine gpuConcurrency).Run h s) : GpuShared gpuConcurrency h s := by
  have hc := compatible gpuConcurrency
  have hsafe : ∀ l c, Safely (fun _ _ _ => True) (stages l) [] c := fun l _ => safely_stages l
  have hguarded := Threads.guarded hc nested_stages hsafe run
  have htold := told run
  refine ⟨?_, htold.one_stack, htold.one_pipeline, htold.runs, fun x hx r hr => ?_⟩
  · exact Threads.countP_le (l := .slots) (Threads.ordered nested_stages run) fun t ht hin =>
      slots_of_inModel (hguarded t ht) hin
  · obtain ⟨held, hk⟩ := Threads.guaranteed hc nested_stages hsafe run x hx
    rw [hr] at hk
    exact hk.2.2

/-- Answers that fit the caches `c`; the pipeline that is loaded is `7`. -/
def plainAnswer (c : Caches) : ∀ o, PipelineAnswer o
  | .loadedStack key => c.loadedStacks key
  | .pipelineLoaded => c.pipeline.isSome
  | .readPipeline => c.pipeline
  | .loadModel _ | .loadProcessor _ => (.ok 0 : Except PipelineExc ℕ)
  | .loadPipeline => (.ok (some 7) : Except PipelineExc (Option ℕ))
  | .run _ | .outside _ => (.ok () : Except PipelineExc Unit)
  | .storeStack .. | .storePipeline _ => ()

theorem effect_plainAnswer (c : Caches) (o : PipelineOp) : (o.effect (plainAnswer c o) c).isSome := by
  cases o <;> simp [PipelineOp.effect, plainAnswer]

/-- One thread has loaded the pipeline and is in it; another, which is to transcribe, has come to the
slot. -/
def contended : List (ThreadEvent (List (GpuStage × Bool)) PipelineAnswer) :=
  let loaded := plainAnswer ⟨fun _ => none, some 7⟩
  [.start [(.diarize "model", false)], .start [(.transcribe, false)]] ++
    List.replicate 6 (.run 0 (plainAnswer ⟨fun _ => none, none⟩)) ++
    List.replicate 3 (.run 1 loaded) ++ List.replicate 4 (.run 0 loaded)

/-- With one slot, the second thread waits. -/
theorem gpuShared_contended : ∃ h s, GpuShared 1 h s ∧ storedPipelines h = [7] ∧
    s.threads.countP inModel = 1 ∧
    ((pipelineMachine 1).step s (.run 1 (plainAnswer ⟨fun _ => none, some 7⟩))).isNone = true := by
  obtain ⟨h, s, run, hcontended⟩ := Machine.Run.of_exec (pipelineMachine 1) contended
    (fun h s => storedPipelines h = [7] && (s.threads.countP inModel = 1 &&
      ((pipelineMachine 1).step s (.run 1 (plainAnswer ⟨fun _ => none, some 7⟩))).isNone))
    (by decide +kernel)
  simp only [Bool.and_eq_true, decide_eq_true_eq] at hcontended
  exact ⟨h, s, gpuShared run, hcontended⟩

/-- **The pipeline never deadlocks.**  However its threads are scheduled, every call comes to its end,
if no other is started. -/
theorem stages_end (hpos : 1 ≤ gpuConcurrency) {h : PipelineLog} {s : PipelineThreads}
    (run : (pipelineMachine gpuConcurrency).Run h s) :
    Inevitable (Threads.Steps PipelineOp.effect stages) Threads.Done s := by
  refine Threads.inevitable (Threads.ordered nested_stages run) nested_stages (fun l => ?_) fun c o => ?_
  · cases l with
    | slots => exact hpos
    | _ => exact Nat.one_pos
  · exact ⟨plainAnswer c o, effect_plainAnswer c o⟩

/-- Two threads, about to begin. -/
theorem stages_end_two : ∃ s : PipelineThreads, s.threads.length = 2 ∧
    Inevitable (Threads.Steps PipelineOp.effect stages) Threads.Done s := by
  obtain ⟨h, s, run, hone⟩ := Machine.Run.of_exec (pipelineMachine 1)
    [.start [(.diarize "model", false)], .start [(.align ("model", "cpu"), true), (.transcribe, false)]]
    (fun _ s => s.threads.length = 2) (by decide +kernel)
  exact ⟨s, of_decide_eq_true hone, stages_end le_rfl run⟩

end Runs

end Vemsa.Pipeline.Gpu
