import Vemsa.Support.Json
import Vemsa.Pipeline.Label

/-!
# Pipeline — WhisperApi

A transcript from a remote provider: the `verbose_json` payload is checked and read
(`parseVerboseJson`), its words are dropped when their timeline is implausible beside segments
(`gatedWords`), and what is left is merged with the turns (`OpenAIWhisperEngine.transcribe`).
The provider itself is a response, whatever it is.

Words reach a result on two ways: in the list the payload gives, and in the copies
`parseVerboseJson` nests into the segments.
-/

namespace Vemsa.Pipeline
open Vemsa.Support Vemsa.Jobs

/-- `float(value)`, missing where it raises, and `str(value)` of a value read from JSON.  Seconds are
finite. -/
structure Casts (τ : Type) where
  float : Json → Option τ
  str : Json → String

/-- The casts of numbers, flags and strings. -/
def Casts.plain : Casts ℚ where
  float
    | .num (.finite q) => some q
    | .bool b => some (if b then 1 else 0)
    | _ => none
  str
    | .str s => s
    | .bool b => if b then "True" else "False"
    | _ => "None"

/-- A JSON object. -/
abbrev Payload := List (String × Json)

section Payload

variable {τ : Type} [Seconds τ] (casts : Casts τ) (payload : Payload)

/-- `float(payload.get("duration") or 0.0)` -/
def payloadDuration : Except String τ :=
  match payload.lookup "duration" with
  | none => .ok 0
  | some value =>
    if !value.truthy then .ok 0
    else
      match casts.float value with
      | none => .error "could not convert to float"
      | some duration => .ok duration

/-- `str(payload.get("text", ""))` -/
def payloadText : String :=
  match payload.lookup "text" with
  | none => ""
  | some value => casts.str value

/-- The field is absent, `null` or a list. -/
def listOrNull (key : String) : Bool :=
  match payload.lookup key with
  | none | some .null | some (.arr _) => true
  | some _ => false

/-- `request_transcription`, from the response's JSON on. -/
def requestTranscription : Json → Except String Payload
  | .obj payload => do
    if !(listOrNull payload "words" && listOrNull payload "segments") then
      .error "whisper API returned an invalid response shape"
    match payloadDuration casts payload with
    | .error _ => .error "whisper API returned an invalid duration"
    | .ok _ => return payload
  | _ => .error "whisper API returned an invalid response shape"

/-! ### Reading a payload -/

/-- `payload.get(key) or []`; only a list can be iterated into dicts. -/
def payloadItems (key : String) : Option (List Json) :=
  match payload.lookup key with
  | none => some []
  | some value =>
    if !value.truthy then some []
    else
      match value with
      | .arr items => some items
      | _ => none

/-- A word of the payload; missing where reading it raises. -/
def parseWord : Json → Option (Word τ)
  | .obj item => do
    let word ← item.lookup "word"
    let start ← casts.float (← item.lookup "start")
    let stop ← casts.float (← item.lookup "end")
    let probability ←
      match item.lookup "probability" with
      | none | some .null => some none
      | some probability => (casts.float probability).map some
    return { word := pyStrip (casts.str word), start, stop, probability }
  | _ => none

/-- The midpoint of the word lies in the segment. -/
def midpointIn (word : Word τ) (segment : Segment τ) : Bool :=
  let midpoint := Seconds.half (word.start + word.stop)
  segment.start ≤ midpoint ∧ midpoint < segment.stop

/-- A segment of the payload, with the words that fall into it. -/
def parseSegment (words : List (Word τ)) : Json → Option (Segment τ)
  | .obj item => do
    let start ← casts.float (← item.lookup "start")
    let stop ← casts.float (← item.lookup "end")
    let text ← item.lookup "text"
    let segment : Segment τ := { start, stop, text := pyStrip (casts.str text) }
    return { segment with words := words.filter fun word => midpointIn word segment }
  | _ => none

/-- The `try` block of `parse_verbose_json`. -/
def parseLists : Option (List (Word τ) × List (Segment τ)) := do
  let words ← (← payloadItems payload "words").mapM (parseWord casts)
  let words := sortedBy Word.start words
  let segments ← (← payloadItems payload "segments").mapM (parseSegment casts words)
  return (words, sortedBy Segment.start segments)

/-- `parse_verbose_json` -/
def parseVerboseJson : Except String (List (Word τ) × List (Segment τ)) :=
  match parseLists casts payload with
  | none => .error "whisper API returned an invalid transcript"
  | some (words, segments) =>
    if words = [] ∧ segments = [] then .error "whisper API returned neither words nor segments"
    else .ok (words, segments)

/-- `build_result` -/
def buildResult (segments : List (Segment τ)) (model language : String)
    (alignment : Option Jobs.Alignment) : Except String (TranscriptionResult τ) := do
  let duration ← payloadDuration casts payload
  let unspecified := if language ≠ "auto" then language else "unknown"
  return {
    language := match payload.lookup "language" with
      | none => unspecified
      | some detected => if detected.truthy then casts.str detected else unspecified
    durationSeconds :=
      if duration ≠ 0 then duration else (segments.getLast?.map Segment.stop).getD 0
    model
    text := renderText segments
    segments
    alignment }

end Payload

/-! ### The engine -/

/-- What the remote and the hybrid engine are built from; `align` is the run of the alignment
library. -/
structure Engine where
  casts : Casts ℚ
  letters : Letters
  tuning : AttributionKnobs ℚ := {}
  diarizePreferAlign : Bool := true
  diarizer : SpeakerDiarizer
  align : List (Window ℚ) → String → Except String (List (Word ℚ))

namespace Engine

variable (engine : Engine)

/-- `self._segment_aligner`, from `build_segment_aligner` -/
def segmentAligner (audio : Audio ℚ) : SegmentAligner := fun segments language =>
  forceAlignSegments engine.align audio segments language ""

/-- `label_speakers` of both engines -/
def labelSpeakers (audio : Audio ℚ) (words : List (Word ℚ)) (segments : List (Segment ℚ))
    (language model : String) (speakers : Option SpeakerBounds) (includeSpeakerReview : Bool) :
    Except String (TranscriptionResult ℚ) :=
  Pipeline.labelSpeakers engine.letters engine.tuning engine.diarizePreferAlign engine.diarizer
    (some (engine.segmentAligner audio)) audio words segments language model speakers
    includeSpeakerReview

/-- `turns, review` of both engines -/
def turnsAndReview (diarize : Bool) (speakers : Option SpeakerBounds)
    (includeSpeakerReview : Bool) :
    Except String (Option (List (Turn ℚ)) × Option SpeakerReview) := do
  if !diarize then return (none, none)
  let (turns, review) ← collectDiarization engine.diarizer speakers includeSpeakerReview
  return (some turns, review)

end Engine

namespace OpenAIWhisperEngine

/-- `words` after the guard of `transcribe`. -/
def gatedWords (words : List (Word ℚ)) (plainSegments : List (Segment ℚ)) : List (Word ℚ) :=
  if words ≠ [] ∧ plainSegments ≠ [] ∧ ¬ wordsPlausible words then [] else words

/-- `OpenAIWhisperEngine.transcribe` -/
def transcribe (engine : Engine) (response : Json) (language model : String) (diarize : Bool)
    (speakers : Option SpeakerBounds) (includeSpeakerReview : Bool) :
    Except String (TranscriptionResult ℚ) := do
  let payload ← requestTranscription engine.casts response
  let (words, plainSegments) ← parseVerboseJson engine.casts payload
  let words := gatedWords words plainSegments
  let (turns, review) ← engine.turnsAndReview diarize speakers includeSpeakerReview
  let segments ← resolveSegments engine.letters engine.tuning words plainSegments turns
  let alignment :=
    if words ≠ [] then .providerWords else segmentMergeAlignment plainSegments segments
  let result ← buildResult engine.casts payload segments model language (some alignment)
  return applySpeakerReview result review

end OpenAIWhisperEngine

end Vemsa.Pipeline
