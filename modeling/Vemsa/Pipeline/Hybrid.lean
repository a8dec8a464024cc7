import Vemsa.Pipeline.WhisperApi

/-!
# Pipeline — Hybrid

The text of a remote provider, timed by forced alignment: the provider's words only judge whether
its segments may anchor the alignment.
-/

namespace Vemsa.Pipeline.HybridEngine
open Vemsa.Support Vemsa.Jobs

/-- `align_segments`; `duration` is the payload's. -/
def alignSegments (duration : ℚ) (providerWords : List (Word ℚ))
    (plainSegments : List (Segment ℚ)) : List (Segment ℚ) :=
  let windowsTrusted := !(providerWords ≠ [] && !wordsPlausible providerWords)
  alignmentInput plainSegments windowsTrusted
    (if duration ≠ 0 then duration else lastEnd plainSegments)

/-- `HybridEngine.transcribe` -/
def transcribe (engine : Engine) (audio : Audio ℚ) (response : Json) (language model : String)
    (diarize : Bool) (speakers : Option SpeakerBounds) (includeSpeakerReview : Bool) :
    Except String (TranscriptionResult ℚ) := do
  let payload ← requestTranscription engine.casts response
  let (providerWords, plainSegments) ← parseVerboseJson engine.casts payload
  if providerWords = [] ∧ plainSegments = [] then
    .error "whisper API returned neither words nor segments"
  let duration ← payloadDuration engine.casts payload
  let segments := alignSegments duration providerWords plainSegments
  let words ← forceAlignSegments engine.align audio segments language
    (payloadText engine.casts payload)
  if words = [] then .error "forced alignment produced no words for the provider transcript"
  let (turns, review) ← engine.turnsAndReview diarize speakers includeSpeakerReview
  let segments ← resolveSegments engine.letters engine.tuning words [] turns
  let result ← buildResult engine.casts payload segments model language (some .forced)
  return applySpeakerReview result review

end Vemsa.Pipeline.HybridEngine
