import Vemsa.Support.Search
import Vemsa.Pipeline.Diarize

/-!
# Pipeline — SpeakerReview

Where several people speak at once, and what that makes of a transcript.

* `detectOverlaps`: a sweep over the turns of the diarization, as half-open intervals.
* `applySpeakerReview`: segments split where their overlaps change, and flagged.

An interval carries its validators, so what the sweep extends without validating it anew stays
valid by the conditions it is extended under.
-/

namespace Vemsa.Pipeline
open Vemsa.Support Vemsa.Jobs

/-! ### Detection -/

/-- `events`: what happens at a time, to which speaker. -/
structure Events where
  times : Finset ℚ := ∅
  counter : ℚ → Counter String := fun _ => .empty

/-- `events[time][speaker] += n` -/
def Events.add (events : Events) (time : ℚ) (speaker : String) (n : ℤ) : Events where
  times := insert time events.times
  counter t := if t = time then (events.counter t).add speaker n else events.counter t

/-- The first loop of `detect_overlaps`. -/
def addTurn (events : Events) (turn : Turn ℚ) : Events :=
  let start := max 0 turn.start
  if turn.stop ≤ start then events
  else (events.add start turn.speaker 1).add turn.stop turn.speaker (-1)

def turnEvents (turns : List (Turn ℚ)) : Events := turns.foldl addTurn {}

/-- `SpeechOverlap(...)` -/
def newOverlap (id : String) (start stop : ℚ) (detectedSpeakerCount : ℕ) :
    Except String SpeechOverlap :=
  if start_nonneg : 0 ≤ start then
    if 0 < stop then
      if two_le_count : 2 ≤ detectedSpeakerCount then
        if start_lt_stop : start < stop then
          .ok { id, start, stop, detectedSpeakerCount, start_nonneg, start_lt_stop, two_le_count }
        else .error "overlap end must be greater than start"
      else .error "Input should be greater than or equal to 2"
    else .error "Input should be greater than 0"
  else .error "Input should be greater than or equal to 0"

/-- `SpeakerReview(...)` -/
def newReview (overlapDetection : OverlapDetection) (overlaps : List SpeechOverlap) :
    Except String SpeakerReview :=
  if none_of_unavailable : overlapDetection = .unavailable → overlaps = [] then
    if ids_nodup : (overlaps.map SpeechOverlap.id).Nodup then
      if ordered : overlaps.IsChain fun a b => a.stop ≤ b.start then
        .ok { overlapDetection, overlaps, none_of_unavailable, ids_nodup, ordered }
      else .error "overlap intervals must be ordered and non-overlapping"
    else .error "overlap IDs must be unique within the result"
  else .error "unavailable overlap detection cannot provide overlaps"

/-- `f"overlap_{n:04d}"` -/
def overlapId (n : ℕ) : String := "overlap_" ++ zeroPadded 4 n

/-- What the second loop of `detect_overlaps` carries along. -/
structure Sweep where
  active : Counter String := .empty
  intervals : List SpeechOverlap := []
  previous : Option ℚ := none
  previousSpeakers : Finset String := ∅

/-- `model_copy(update={"end": time})` of an interval that ends before. -/
def SpeechOverlap.until (o : SpeechOverlap) (time : ℚ) (h : o.stop < time) : SpeechOverlap :=
  { o with stop := time, start_lt_stop := o.start_lt_stop.trans h }

/-- The stretch from `previous` to `time`, during which `speakers` speak: `intervals` with it. -/
def Sweep.record (sweep : Sweep) (previous time : ℚ) (h : previous < time)
    (speakers : Finset String) : Except String (List SpeechOverlap) :=
  let append := (newOverlap (overlapId sweep.intervals.length) previous time speakers.card).map
    fun o => sweep.intervals ++ [o]
  match sweep.intervals.getLast? with
  | none => append
  | some last =>
    if hlast : last.stop = previous ∧ speakers = sweep.previousSpeakers then
      .ok (sweep.intervals.dropLast ++ [SpeechOverlap.until last time (hlast.1.trans_lt h)])
    else append

/-- The body of the second loop of `detect_overlaps`. -/
def sweepStep (events : Events) (sweep : Sweep) (time : ℚ) : Except String Sweep := do
  let speakers := sweep.active.positives
  let intervals ←
    match sweep.previous with
    | none => pure sweep.intervals
    | some previous =>
      if h : previous < time ∧ 2 ≤ speakers.card then sweep.record previous time h.1 speakers
      else pure sweep.intervals
  return {
    active := (sweep.active.update (events.counter time)).positive
    intervals
    previous := some time
    previousSpeakers := speakers }

/-- `detect_overlaps` -/
def detectOverlaps (turns : List (Turn ℚ)) : Except String SpeakerReview := do
  let events := turnEvents turns
  let sweep ← (events.times.sort (· ≤ ·)).foldlM (sweepStep events) {}
  newReview .available sweep.intervals

/-! ### Annotation -/

/-- `_ids` -/
def ids (start stop : ℚ) (overlaps : List SpeechOverlap) : List String :=
  (overlaps.filter fun o => start < o.stop ∧ o.start < stop ∧ start < stop).map SpeechOverlap.id

/-- `_annotate` -/
def annotate (segment : Segment ℚ) (ids : List String) : Segment ℚ :=
  { segment with
    speakerAttribution := some <|
      if ids ≠ [] then .provisional
      else if segment.speaker.any fun speaker => !speaker.isEmpty then .assigned
      else .unassigned
    overlapIds := ids }

/-- `starts` of `_split_segment`; `none` once a word has no reliable anchor in the text. -/
def anchors (text : Text) (cursor : ℕ) : List (Word ℚ) → Option (List ℕ)
  | [] => some []
  | word :: words =>
    if word.word = "" then none
    else
      match pyFind text word.word.toList cursor with
      | none => none
      | some start => (anchors text (start + word.word.toList.length) words).map (start :: ·)

/-- A word with its overlaps and its place in the text. -/
structure AnchoredWord where
  word : Word ℚ
  ids : List String
  start : ℕ

/-- How many of the words after the first have its overlaps. -/
def sameIds (first : AnchoredWord) (rest : List AnchoredWord) : ℕ :=
  (rest.takeWhile fun other => other.ids = first.ids).length

/-- The loop over the boundaries of `_split_segment`; the text from `textStart` on is left. -/
def splitParts (segment : Segment ℚ) (textStart : ℕ) : List (List AnchoredWord) → List (Segment ℚ)
  | [] => []
  | part :: parts =>
    let text := segment.text.toList
    let textEnd := ((parts.head?.bind List.head?).map AnchoredWord.start).getD text.length
    let words := part.map AnchoredWord.word
    annotate
        { segment with
          start := (words.map Word.start).min?.getD 0
          stop := (words.map Word.stop).max?.getD 0
          text := pyStrip (.ofList ((text.take textEnd).drop textStart))
          words := words }
        ((part.head?.map AnchoredWord.ids).getD []) ::
      splitParts segment textEnd parts

/-- `_split_segment` -/
def splitSegment (segment : Segment ℚ) (overlaps : List SpeechOverlap) : List (Segment ℚ) :=
  if segment.words = [] then [annotate segment (ids segment.start segment.stop overlaps)]
  else
    let wordIds := segment.words.map fun word => ids word.start word.stop overlaps
    match anchors segment.text.toList 0 segment.words with
    | none =>
      let affected := ids segment.start segment.stop overlaps ++ wordIds.flatten
      [annotate segment ((overlaps.filter fun o => o.id ∈ affected).map SpeechOverlap.id)]
    | some starts =>
      let anchored := List.zipWith (fun word p => ⟨word, p.1, p.2⟩) segment.words
        (wordIds.zip starts)
      match pieces sameIds anchored with
      | [part] => [annotate segment ((part.head?.map AnchoredWord.ids).getD [])]
      | parts => splitParts segment 0 parts

/-- The overlaps looked up for a segment; its words may stick out of it. -/
def candidates (ordered : List SpeechOverlap) (segment : Segment ℚ) : List SpeechOverlap :=
  let start := (segment.words.map Word.start).foldl min segment.start
  let stop := (segment.words.map Word.stop).foldl max segment.stop
  (ordered.drop (bisectRight (ordered.map SpeechOverlap.stop) start)).takeWhile fun o =>
    o.start < stop

/-- `apply_speaker_review` -/
def applySpeakerReview (result : TranscriptionResult ℚ) (review : Option SpeakerReview) :
    TranscriptionResult ℚ :=
  match review with
  | none => result
  | some review =>
    let segments := result.segments.flatMap fun segment =>
      splitSegment segment (candidates review.overlaps segment)
    { result with segments, text := renderText segments, speakerReview := some review }

end Vemsa.Pipeline
