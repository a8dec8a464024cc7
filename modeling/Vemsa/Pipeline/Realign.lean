import Mathlib
import Vemsa.Support.Blocks
import Vemsa.Jobs.Models
import Vemsa.Pipeline.Normalize

/-!
# Pipeline — Realign

`task=align`: the word timestamps of a speaker-labelled transcript, derived again from the
audio.  Segments are merged into windows (`groupWindows`, `windowFor`), the windows padded
(`padWindows`), one flat list of words comes back from the aligner, and the words are cut apart
again by counting tokens: per window, then per segment (`distributeWords`).
-/

namespace Vemsa.Pipeline
open Vemsa.Support Vemsa.Jobs

variable {τ : Type} [Seconds τ]

/-! ### Rendering -/

/-- `f"{n:02d}"` -/
def twoDigits (n : ℤ) : String :=
  let digits := toString n
  if digits.length < 2 then "0" ++ digits else digits

/-- `_hms` -/
def hms (seconds : τ) : String :=
  let total := Seconds.trunc seconds
  s!"{twoDigits (total.fdiv 3600)}:{twoDigits ((total.fmod 3600).fdiv 60)}:{twoDigits (total.fmod 60)}"

/-- One line of `render_text`. -/
def renderLine (segment : Segment τ) : String :=
  let stamp := s!"[{hms segment.start} - {hms segment.stop}]"
  let label :=
    if segment.speakerAttribution = some .provisional then " [Överlappande tal – osäker talare]:"
    else match segment.speaker with
      | none => ""
      | some speaker => if speaker.isEmpty then "" else s!" {speaker}:"
  s!"{stamp}{label} {segment.text}"

/-- `render_text` -/
def renderText (segments : List (Segment τ)) : String :=
  pyJoin "\n" (segments.map renderLine)

/-! ### Windows -/

section Windows

variable (U : Unicode) (segments : List (Segment τ))

/-- `alignable_tokens(segments[i].text)` -/
def tokenCount (i : Fin segments.length) : ℕ := alignableTokens U (segments.get i).text

/-- The order of `key=lambda index: (segments[index].start, index)`. -/
def timeKey (i : Fin segments.length) : τ ×ₗ ℕ := toLex ((segments.get i).start, i.val)

/-- `sorted(range(len(segments)), key=…)` -/
def timeOrder : List (Fin segments.length) :=
  (List.finRange segments.length).insertionSort fun i j => timeKey segments i ≤ timeKey segments j

/-- The loop of `group_windows` over segments with alignable text: `group` is `groups[-1]`,
`windowEnd` the end of its window so far. -/
def groupFrom (mergeGapS : τ) (group : List (Fin segments.length)) (windowEnd : τ) :
    List (Fin segments.length) → List (List (Fin segments.length))
  | [] => [group]
  | i :: rest =>
    let segment := segments.get i
    if segment.start - windowEnd ≤ mergeGapS then
      groupFrom mergeGapS (group ++ [i]) (max windowEnd segment.stop) rest
    else group :: groupFrom mergeGapS [i] segment.stop rest

/-- `group_windows` -/
def groupWindows (mergeGapS : τ) : List (List (Fin segments.length)) :=
  match (timeOrder segments).filter fun i => tokenCount U segments i ≠ 0 with
  | [] => []
  | i :: rest => groupFrom segments mergeGapS [i] (segments.get i).stop rest

/-- `window_for`; `group` is not empty. -/
def windowFor (group : List (Fin segments.length)) : Segment τ :=
  let members := group.map segments.get
  { start := (members.map Segment.start).min?.getD 0
    stop := (members.map Segment.stop).max?.getD 0
    text := pyJoin " " (members.map fun member => pyStrip member.text) }

end Windows

/-- The body of the loop of `pad_windows`: `previous` and `next` are the windows on both sides. -/
def padWindow (padS duration : τ) (previous : Option (Segment τ)) (window : Segment τ)
    (next : Option (Segment τ)) : Segment τ :=
  let start := max 0 (window.start - padS)
  let stop := window.stop + padS
  let stop := if 0 < duration then min duration stop else stop
  let start :=
    match previous with
    | none => start
    | some previous =>
      let midpoint := Seconds.half (previous.stop + window.start)
      max start (min midpoint window.start)
  let stop :=
    match next with
    | none => stop
    | some next =>
      let midpoint := Seconds.half (window.stop + next.start)
      min stop (max midpoint window.stop)
  { window with start := start, stop := max stop window.stop }

/-- `pad_windows`, from a window whose predecessor is `previous`. -/
def padFrom (padS duration : τ) (previous : Option (Segment τ)) :
    List (Segment τ) → List (Segment τ)
  | [] => []
  | window :: rest =>
    padWindow padS duration previous window rest.head? :: padFrom padS duration (some window) rest

/-- `pad_windows` -/
def padWindows (windows : List (Segment τ)) (padS duration : τ) : List (Segment τ) :=
  padFrom padS duration none windows

/-! ### Handing the words back -/

/-- What `align_transcript` raises. -/
inductive AlignError where
  | noAlignableText
  | aligner (message : String)
  | noWords
  | totalMismatch (words tokens : ℕ)
  | windowMismatch (words members tokens : ℕ)
deriving DecidableEq

/-- The text of the error; an exception of the aligner passes through. -/
def AlignError.message : AlignError → String
  | noAlignableText => "the transcript has no alignable text"
  | aligner message => message
  | noWords => "forced alignment produced no words for the supplied transcript"
  | totalMismatch words tokens =>
    s!"forced alignment returned {words} words for {tokens}" ++
      " alignable tokens; cannot attribute the words to segments"
  | windowMismatch words members tokens =>
    s!"forced alignment returned {words} words for a window whose" ++
      s!" {members} segments hold {tokens} alignable tokens; cannot" ++
      " attribute the words to segments"

section Words

variable (U : Unicode) (segments : List (Segment τ))

/-- `distribute_words` -/
def distributeWords (group : List (Fin segments.length)) (words : List (Word τ)) :
    Except AlignError (List (Fin segments.length × List (Word τ))) :=
  match group with
  | [i] => .ok [(i, words)]
  | _ =>
    let counts := group.map (tokenCount U segments)
    if counts.sum ≠ words.length then
      .error (.windowMismatch words.length group.length counts.sum)
    else .ok (group.zip (counts.splitLengths words))

/-- The loop of `align_transcript` over its windows.  The groups share no segment, so no entry
of the result replaces another. -/
def distributeWindows :
    List (List (Fin segments.length)) → List (List (Word τ)) →
      Except AlignError (List (Fin segments.length × List (Word τ)))
  | group :: groups, block :: blocks =>
    match distributeWords U segments group block with
    | .error e => .error e
    | .ok entries =>
      match distributeWindows groups blocks with
      | .error e => .error e
      | .ok rest => .ok (entries ++ rest)
  | _, _ => .ok []

/-- `words_by_segment.get(index, [])` -/
def wordsOf (wordsBySegment : List (Fin segments.length × List (Word τ)))
    (i : Fin segments.length) : List (Word τ) :=
  (wordsBySegment.lookup i).getD []

/-- A segment with the words it got; without any it keeps its window. -/
def retime (segment : Segment τ) (words : List (Word τ)) : Segment τ :=
  match words with
  | [] => { segment with words := [] }
  | first :: rest =>
    { segment with
      start := first.start
      stop := ((first :: rest).getLast (List.cons_ne_nil _ _)).stop
      words := first :: rest }

/-- `retimed` of `retime_segments`: the segments with their places in the input, by new start. -/
def retimeIndexed (words : Fin segments.length → List (Word τ)) :
    List (Fin segments.length × Segment τ) :=
  ((List.finRange segments.length).map fun i => (i, retime (segments.get i) (words i))).insertionSort
    fun a b => toLex (a.2.start, a.1.val) ≤ toLex (b.2.start, b.1.val)

/-- `retime_segments` -/
def retimeSegments (words : Fin segments.length → List (Word τ)) : List (Segment τ) :=
  (retimeIndexed segments words).map Prod.snd

/-- The knobs of `AttributionTuning` that `task=align` reads. -/
structure AttributionTuning (τ : Type) where
  alignMergeGapS : τ
  alignWindowPadS : τ

/-- `audio_duration`: what the decoder read off the audio, or the fallback. -/
def audioDuration (decoded : Option τ) (fallback : τ) : τ := decoded.getD fallback

/-- `max((segment.end for segment in segments), default=0.0)` -/
def lastEnd (segments : List (Segment τ)) : τ := ((segments.map Segment.stop).max?).getD 0

/-- The padded windows `align_transcript` hands to the aligner. -/
def alignWindows (tuning : AttributionTuning τ) (decoded : Option τ) : List (Segment τ) :=
  padWindows ((groupWindows U segments tuning.alignMergeGapS).map (windowFor segments))
    tuning.alignWindowPadS (audioDuration decoded (lastEnd segments))

/-- `align_transcript` up to `words_by_segment`. -/
def attributeWords (aligner : List (Segment τ) → String → Except String (List (Word τ)))
    (language : String) (tuning : AttributionTuning τ) (decoded : Option τ) :
    Except AlignError (List (Fin segments.length × List (Word τ))) :=
  let groups := groupWindows U segments tuning.alignMergeGapS
  if groups.isEmpty then .error .noAlignableText
  else
    let windows := alignWindows U segments tuning decoded
    match aligner windows language with
    | .error message => .error (.aligner message)
    | .ok words =>
      if words.isEmpty then .error .noWords
      else
        let words := words.insertionSort fun a b => a.start ≤ b.start
        let windowCounts := windows.map fun window => alignableTokens U window.text
        if windowCounts.sum ≠ words.length then
          .error (.totalMismatch words.length windowCounts.sum)
        else distributeWindows U segments groups (windowCounts.splitLengths words)

/-- `align_transcript` -/
def alignTranscript (aligner : List (Segment τ) → String → Except String (List (Word τ)))
    (language model : String) (tuning : AttributionTuning τ) (decoded : Option τ) :
    Except AlignError (TranscriptionResult τ) :=
  match attributeWords U segments aligner language tuning decoded with
  | .error e => .error e
  | .ok wordsBySegment =>
    let duration := audioDuration decoded (lastEnd segments)
    let retimed := retimeSegments segments (wordsOf segments wordsBySegment)
    .ok
      { language := if language ≠ "auto" then language else "unknown"
        durationSeconds := max duration (lastEnd retimed)
        model := model
        text := renderText retimed
        segments := retimed
        alignment := some .forced }

end Words

end Vemsa.Pipeline
