import Vemsa.Pipeline.SegmentMerge
import Vemsa.Pipeline.SpeakerReview

/-!
# Pipeline — Label

`task=diarize`: speakers for a transcript that was made elsewhere.  The caller's words are used
as they are when their timeline is plausible (`wordsPlausible`) and forced alignment is not
preferred; otherwise the text is aligned again (`alignmentInput`, `alignmentTranscript`), and the
words that come back carry the labels.

The diarizer, the aligner and the decoders are parameters.
-/

namespace Vemsa.Pipeline
open Vemsa.Support Vemsa.Jobs

/-! ### Plausibility -/

section Plausible

variable {τ : Type} [Clock τ]

/-- `PLAUSIBLE_MAX_WORDS_PER_SECOND` -/
def plausibleMaxWordsPerSecond : τ := 4.5

/-- `PLAUSIBLE_PAUSE_GAP_S` -/
def plausiblePauseGapS : τ := 1.0

/-- `PLAUSIBLE_MIN_WORDS` -/
def plausibleMinWords : ℕ := 5

/-- The loop of `words_plausible`: what long pauses leave of the speaking time. -/
def lessPauses (speakingTime : τ) : List (Word τ) → τ
  | previous :: current :: rest =>
    let gap := current.start - previous.stop
    let speakingTime := if plausiblePauseGapS < gap then speakingTime - gap else speakingTime
    lessPauses speakingTime (current :: rest)
  | _ => speakingTime

/-- `words_plausible` -/
def wordsPlausible (words : List (Word τ)) : Bool :=
  let ordered := sortedBy Word.start words
  if words.length < plausibleMinWords then true
  else if h : ordered = [] then true
  else
    let speakingTime := lessPauses ((ordered.getLast h).stop - (ordered.head h).start) ordered
    if speakingTime ≤ 0 then false
    else (ordered.length : τ) / speakingTime ≤ plausibleMaxWordsPerSecond

/-- `len(segment.text.split())` -/
def wordCount (segment : Segment τ) : ℕ := (tokens isSpace segment.text.toList).length

/-- `_window_plausible` -/
def windowPlausible (segment : Segment τ) : Bool :=
  let duration := segment.stop - segment.start
  if wordCount segment < plausibleMinWords then true
  else if duration ≤ 0 then false
  else (wordCount segment : τ) / duration ≤ plausibleMaxWordsPerSecond

/-- `segment_windows_plausible` -/
def segmentWindowsPlausible (segments : List (Segment τ)) : Bool :=
  let count := (segments.map wordCount).sum
  let windowTime := (segments.map fun segment => max 0 (segment.stop - segment.start)).foldl (· + ·) 0
  if count < plausibleMinWords then true
  else if windowTime ≤ 0 then false
  else if plausibleMaxWordsPerSecond < (count : τ) / windowTime then false
  else segments.all windowPlausible

end Plausible

/-! ### Windows for the aligner -/

section Windows

variable {τ : Type} [Clock τ]

/-- `segment.text.strip()` is not empty. -/
def hasText (segment : Segment τ) : Bool := !(pyStrip segment.text).isEmpty

/-- `alignment_input` -/
def alignmentInput (plainSegments : List (Segment τ)) (windowsTrusted : Bool) (totalDuration : τ) :
    List (Segment τ) :=
  if windowsTrusted && segmentWindowsPlausible plainSegments then plainSegments
  else
    let text := pyJoin " " ((plainSegments.filter hasText).map fun segment => pyStrip segment.text)
    [{ start := 0, stop := totalDuration, text }]

/-- An entry of the transcript the aligner is handed. -/
structure Window (τ : Type) where
  start : τ
  stop : τ
  text : String
deriving DecidableEq

/-- `alignment_transcript` -/
def alignmentTranscript (segments : List (Segment τ)) (fallbackText : String) (fallbackEnd : τ) :
    List (Window τ) :=
  match segments.filter hasText with
  | [] => [⟨0, fallbackEnd, pyStrip fallbackText⟩]
  | usable => usable.map fun segment => ⟨segment.start, segment.stop, segment.text⟩

/-- What the decoders read off the audio, and off what `_decodable_audio` makes of it. -/
structure Audio (τ : Type) where
  decoded : Option τ
  decodable : Option τ

/-- `transcript` of `force_align_segments` -/
def alignedWindows (audio : Audio τ) (segments : List (Segment τ)) (fallbackText : String) :
    List (Window τ) :=
  alignmentTranscript segments fallbackText (audioDuration audio.decodable 0)

/-- `force_align_segments`; `align` is the run of the alignment library. -/
def forceAlignSegments (align : List (Window τ) → String → Except String (List (Word τ)))
    (audio : Audio τ) (segments : List (Segment τ)) (language fallbackText : String) :
    Except String (List (Word τ)) := do
  let words ← align (alignedWindows audio segments fallbackText) language
  return sortedBy Word.start words

end Windows

/-! ### Diarization -/

/-- `SpeakerDiarizer`, on one audio file; not every one has `diarize_with_review`. -/
structure SpeakerDiarizer where
  diarize : Option SpeakerBounds → Except String (List (Turn ℚ))
  diarizeWithReview :
    Option (Option SpeakerBounds → Except String (List (Turn ℚ) × Option SpeakerReview)) := none

/-- `collect_diarization` -/
def collectDiarization (diarizer : SpeakerDiarizer) (speakers : Option SpeakerBounds)
    (includeSpeakerReview : Bool) : Except String (List (Turn ℚ) × Option SpeakerReview) := do
  match includeSpeakerReview, diarizer.diarizeWithReview with
  | true, some method => method speakers
  | _, _ =>
    let turns ← diarizer.diarize speakers
    let review ← if includeSpeakerReview then some <$> newReview .unavailable [] else pure none
    return (turns, review)

/-- `segment_merge_alignment` -/
def segmentMergeAlignment {τ : Type} (inputs outputs : List (Segment τ)) : Jobs.Alignment :=
  if inputs.length < outputs.length then .segmentSplit else .segmentOnly

/-! ### Labelling -/

/-- `SegmentAligner`, on one audio file. -/
abbrev SegmentAligner := List (Segment ℚ) → String → Except String (List (Word ℚ))

/-- `reference` -/
def labelledSegments (segments : List (Segment ℚ)) : List (Segment ℚ) :=
  segments.filter fun segment => segment.speaker.any fun speaker => !speaker.isEmpty

/-- `plain_segments` -/
def plainSegments (segments : List (Segment ℚ)) : List (Segment ℚ) :=
  segments.map fun segment =>
    { segment with speaker := none, speakerAttribution := none, overlapIds := [] }

/-- `words`: those of the caller, or those nested in the segments. -/
def callerWords (words : List (Word ℚ)) (segments : List (Segment ℚ)) : List (Word ℚ) :=
  if words = [] then (plainSegments segments).flatMap Segment.words else words

/-- `caller_text` -/
def callerText (words : List (Word ℚ)) : String := pyJoin " " (words.map Word.word)

/-- `words_discarded` -/
def wordsDiscarded (words : List (Word ℚ)) : Bool := words ≠ [] ∧ ¬ wordsPlausible words

/-- `words` after both guards. -/
def trustedWords (preferAlignment : Bool) (words : List (Word ℚ)) : List (Word ℚ) :=
  let words := if wordsDiscarded words then [] else words
  if words ≠ [] ∧ preferAlignment then [] else words

/-- `align_segments`; `words` are the caller's, before the guards. -/
def labelWindows (audio : Audio ℚ) (words : List (Word ℚ)) (segments : List (Segment ℚ)) :
    List (Segment ℚ) :=
  let plain := plainSegments segments
  let totalDuration := audioDuration audio.decoded (lastEnd plain)
  if plain ≠ [] then alignmentInput plain (!wordsDiscarded words) totalDuration
  else [{ start := 0, stop := totalDuration, text := callerText words }]

section Label

variable (L : Letters) (tuning : AttributionKnobs ℚ) (preferAlignment : Bool)
  (diarizer : SpeakerDiarizer) (aligner : Option SegmentAligner) (audio : Audio ℚ)

/-- The words `label_speakers` merges, and their rung. -/
def mergedWords (words : List (Word ℚ)) (segments : List (Segment ℚ)) (language : String) :
    Except String (List (Word ℚ) × Jobs.Alignment) := do
  let words := callerWords words segments
  let trusted := trustedWords preferAlignment words
  if trusted ≠ [] then return (trusted, .providerWords)
  match aligner with
  | none =>
    .error ("forced alignment is required to label this transcript but no" ++
      " aligner is available (install the 'align' extra)")
  | some aligner =>
    let aligned ← aligner (labelWindows audio words segments) language
    if aligned = [] then
      .error "forced alignment produced no words for the supplied transcript"
    else return (aligned, .forced)

/-- `label_speakers` -/
def labelSpeakers (words : List (Word ℚ)) (segments : List (Segment ℚ)) (language model : String)
    (speakers : Option SpeakerBounds) (includeSpeakerReview : Bool) :
    Except String (TranscriptionResult ℚ) := do
  let (words, alignment) ← mergedWords preferAlignment aligner audio words segments language
  let (turns, review) ← collectDiarization diarizer speakers includeSpeakerReview
  let reference := labelledSegments segments
  let turns := if reference ≠ [] then relabelTurns tuning.relabelMinShare turns reference else turns
  let labelled ← resolveSegments L tuning words (plainSegments segments) (some turns)
  return applySpeakerReview
    { language := if language ≠ "auto" then language else "unknown"
      durationSeconds := audioDuration audio.decoded (lastEnd labelled)
      model
      text := renderText labelled
      segments := labelled
      alignment := some alignment }
    review

end Label

end Vemsa.Pipeline
