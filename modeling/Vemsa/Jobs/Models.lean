import Mathlib

/-!
# Jobs — Models

The transcript data that travels through a job: words, segments, the result, and the
speaker-review metadata, whose validators are fields of the structures.  Times are a parameter:
a stored request holds whatever float the decoder accepted, the pipeline computes with seconds.
-/

namespace Vemsa.Jobs

variable {τ : Type}

/-! ### Enumerations

The members of a `StrEnum`, or of a `Literal`, with the strings they stand for. -/

inductive JobStatus where
  | queued | running | completed | failed | cancelled
deriving DecidableEq

inductive JobStage where
  | queued | transcribing | aligning | diarizing | finalizing
deriving DecidableEq

inductive FailureKind where
  | input | capacity | provider | internal | cancelled
deriving DecidableEq

inductive Language where
  | sv | en | auto
deriving DecidableEq

inductive JobTask where
  | transcribe | diarize | align | timestamp
deriving DecidableEq

def Language.values : List (String × Language) := [("sv", .sv), ("en", .en), ("auto", .auto)]

def Language.value : Language → String
  | sv => "sv"
  | en => "en"
  | auto => "auto"

def JobTask.values : List (String × JobTask) :=
  [("transcribe", .transcribe), ("diarize", .diarize), ("align", .align),
    ("timestamp", .timestamp)]

def JobTask.value : JobTask → String
  | transcribe => "transcribe"
  | diarize => "diarize"
  | align => "align"
  | timestamp => "timestamp"

/-! ### Transcripts -/

/-- `Word`; `stop` is the field `end`. -/
structure Word (τ : Type) where
  word : String
  start : τ
  stop : τ
  probability : Option τ := none
deriving DecidableEq

/-- The values of `Segment.speaker_attribution`. -/
inductive SpeakerAttribution where
  | assigned | provisional | unassigned
deriving DecidableEq

def SpeakerAttribution.values : List (String × SpeakerAttribution) :=
  [("assigned", .assigned), ("provisional", .provisional), ("unassigned", .unassigned)]

def SpeakerAttribution.value : SpeakerAttribution → String
  | assigned => "assigned"
  | provisional => "provisional"
  | unassigned => "unassigned"

/-- `Segment`; `stop` is the field `end`. -/
structure Segment (τ : Type) where
  start : τ
  stop : τ
  speaker : Option String := none
  text : String
  words : List (Word τ) := []
  speakerAttribution : Option SpeakerAttribution := none
  overlapIds : List String := []
deriving DecidableEq

/-! ### Speaker review -/

/-- `SpeechOverlap`: both bounds are finite, and the interval is not empty. -/
structure SpeechOverlap where
  id : String
  start : ℚ
  stop : ℚ
  detectedSpeakerCount : ℕ
  start_nonneg : 0 ≤ start
  start_lt_stop : start < stop
  two_le_count : 2 ≤ detectedSpeakerCount
deriving DecidableEq

inductive OverlapDetection where
  | available | unavailable
deriving DecidableEq

def OverlapDetection.values : List (String × OverlapDetection) :=
  [("available", .available), ("unavailable", .unavailable)]

def OverlapDetection.value : OverlapDetection → String
  | available => "available"
  | unavailable => "unavailable"

/-- `SpeakerReview` -/
structure SpeakerReview where
  overlapDetection : OverlapDetection
  overlaps : List SpeechOverlap
  none_of_unavailable : overlapDetection = .unavailable → overlaps = []
  ids_nodup : (overlaps.map SpeechOverlap.id).Nodup
  ordered : overlaps.IsChain fun a b => a.stop ≤ b.start
deriving DecidableEq

/-- `SpeakerBounds` -/
structure SpeakerBounds where
  numSpeakers : Option ℤ := none
  minSpeakers : Option ℤ := none
  maxSpeakers : Option ℤ := none
deriving DecidableEq

/-! ### Results -/

/-- How the word timestamps behind the speaker labels were obtained. -/
inductive Alignment where
  | providerWords | forced | segmentSplit | segmentOnly
deriving DecidableEq

def Alignment.values : List (String × Alignment) :=
  [("provider_words", .providerWords), ("forced", .forced), ("segment_split", .segmentSplit),
    ("segment_only", .segmentOnly)]

def Alignment.value : Alignment → String
  | providerWords => "provider_words"
  | forced => "forced"
  | segmentSplit => "segment_split"
  | segmentOnly => "segment_only"

/-- `TranscriptionResult` -/
structure TranscriptionResult (τ : Type) where
  language : String
  durationSeconds : τ
  model : String
  text : String
  segments : List (Segment τ)
  alignment : Option Alignment := none
  speakerReview : Option SpeakerReview := none
deriving DecidableEq

/-- `EXTERNAL_MODEL` -/
def externalModel : String := "external"

end Vemsa.Jobs
