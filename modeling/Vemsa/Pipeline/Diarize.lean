import Vemsa.Support.Pieces
import Vemsa.Pipeline.Realign

/-!
# Pipeline — Diarize

From words and the turns a diarizer heard to speaker-labelled lines (`assignSpeakers`): each word is
labelled with the turn it overlaps most (`labelWords`), short runs of a stray label are smoothed away
(`smoothIslands`), a change in mid-sentence is moved to a sentence boundary (`snapBoundaries`), the
words are grouped into lines (`groupLabelled`), and tiny lines are glued to a neighbour
(`mergeShortOrphans`).

`Letters` stands for the character tables of the interpreter.
-/

namespace Vemsa.Pipeline
open Vemsa.Support Vemsa.Jobs

/-- `str.isalpha` and `str.islower` of one character. -/
structure Letters where
  isAlpha : Char → Bool
  isLower : Char → Bool

/-- The tables on ASCII and the Swedish letters. -/
def Letters.latin : Letters where
  isAlpha c := ('a' ≤ c ∧ c ≤ 'z') ∨ ('A' ≤ c ∧ c ≤ 'Z') ∨ c ∈ ['å', 'ä', 'ö', 'Å', 'Ä', 'Ö']
  isLower c := ('a' ≤ c ∧ c ≤ 'z') ∨ c ∈ ['å', 'ä', 'ö']

/-- `Turn`; `stop` is the field `end`. -/
structure Turn (τ : Type) where
  start : τ
  stop : τ
  speaker : String
deriving DecidableEq

variable {τ : Type} [Clock τ]

/-- All knobs of `AttributionTuning`, with their defaults. -/
structure AttributionKnobs (τ : Type) [Clock τ] extends AttributionTuning τ where
  minCoverage : τ := 0.25
  islandMaxWords : ℤ := 2
  islandMaxDurationS : τ := 1.0
  islandMaxSpanS : τ := 3.0
  inheritMaxGapS : τ := 2.0
  boundaryMaxWords : ℤ := 3
  boundaryMaxGapS : τ := 3.0
  gapSplitS : τ := 1.0
  hardGapSplitS : τ := 15.0
  lineSentenceSplitS : τ := 15.0
  lineMaxS : τ := 30.0
  lineMaxWords : ℤ := 60
  minSegmentWords : ℤ := 1
  minSegmentDurationS : τ := 0.6
  alignMergeGapS := 0.5
  alignWindowPadS := 0.5
  relabelMinShare : τ := 0.5

/-! ### Grammar -/

/-- `_SENTENCE_END_CHARS` -/
def sentenceEndChars : List Char := ['.', '?', '!', '…']

/-- `_TRAILING_CLOSERS` -/
def trailingClosers : List Char := ['"', '\'', '”', '’', '»', ')', ']']

/-- `_ends_sentence` -/
def endsSentence (text : String) : Bool :=
  match (text.toList.rdropWhile trailingClosers.contains).getLast? with
  | none => false
  | some c => sentenceEndChars.contains c

/-- `_continues_sentence` -/
def continuesSentence (L : Letters) (text : String) : Bool :=
  match text.toList.find? L.isAlpha with
  | none => false
  | some c => L.isLower c

/-! ### Labels -/

/-- `_overlap`, and the same expression where the code writes it out. -/
def overlap (start stop : τ) (turn : Turn τ) : τ :=
  max 0 (min stop turn.stop - max start turn.start)

/-- `_nearest_turn` of a word or a segment; `min` of no turns raises. -/
def nearestTurn (start stop : τ) (turns : List (Turn τ)) : Except String (Turn τ) :=
  let midpoint := Seconds.half (start + stop)
  match turns.argmin fun turn => Clock.abs (Seconds.half (turn.start + turn.stop) - midpoint) with
  | none => .error "min() iterable argument is empty"
  | some turn => .ok turn

/-- The inner loop of `_label_words`: `best` and `best_overlap`, from the turn at `index` on. -/
def bestTurn (word : Word τ) (best : Option String) (bestOverlap : τ) :
    List (Turn τ) → Option String × τ
  | [] => (best, bestOverlap)
  | turn :: turns =>
    if turn.start < word.stop then
      if bestOverlap < overlap word.start word.stop turn then
        bestTurn word (some turn.speaker) (overlap word.start word.stop turn) turns
      else bestTurn word best bestOverlap turns
    else (best, bestOverlap)

section Label

variable (minCoverage inheritMaxGapS : τ) (turns : List (Turn τ))

/-- The body of the loop of `_label_words`: `previous` is the word before with its label,
`candidates` are the turns from `first_candidate` on. -/
def labelWord (previous : Option (Word τ × String)) (candidates : List (Turn τ)) (word : Word τ) :
    Except String String :=
  let (best, bestOverlap) := bestTurn word none 0 candidates
  let best := if bestOverlap < minCoverage * (word.stop - word.start) then none else best
  let nearest := (nearestTurn word.start word.stop turns).map Turn.speaker
  match best, previous with
  | some speaker, _ => .ok speaker
  | none, none => nearest
  | none, some (before, label) =>
    if word.start - before.stop ≤ inheritMaxGapS then .ok label else nearest

def labelFrom (previous : Option (Word τ × String)) (candidates : List (Turn τ)) :
    List (Word τ) → Except String (List String)
  | [] => .ok []
  | word :: words =>
    let candidates := candidates.dropWhile fun turn => turn.stop ≤ word.start
    match labelWord minCoverage inheritMaxGapS turns previous candidates word with
    | .error e => .error e
    | .ok label =>
      match labelFrom (some (word, label)) candidates words with
      | .error e => .error e
      | .ok labels => .ok (label :: labels)

/-- `_label_words` -/
def labelWords (words : List (Word τ)) : Except String (List String) :=
  labelFrom minCoverage inheritMaxGapS turns none turns words

end Label

/-! ### Smoothing -/

/-- A maximal run of words with one label, from `run_start` to `index`. -/
structure LabelRun (τ : Type) where
  label : String
  first : Word τ
  rest : List (Word τ)

/-- `words[index - 1]` -/
def LabelRun.last (run : LabelRun τ) : Word τ := (run.first :: run.rest).getLast (by simp)

def LabelRun.count (run : LabelRun τ) : ℕ := run.rest.length + 1

/-- The runs the loop of `_smooth_islands` stops at. -/
def labelRuns : List (Word τ × String) → List (LabelRun τ)
  | [] => []
  | (word, label) :: rest =>
    match labelRuns rest with
    | [] => [⟨label, word, []⟩]
    | run :: runs =>
      if label = run.label then ⟨label, word, run.first :: run.rest⟩ :: runs
      else ⟨label, word, []⟩ :: run :: runs

section Smooth

variable (L : Letters) (maxWords : ℤ) (maxDurationS maxSpanS : τ)

/-- Whether the run is absorbed: `neighbour` is the label of the word before it, `before` that
word, and `next` the run after it. -/
def absorbed (neighbour : String) (before : Word τ) (run next : LabelRun τ) : Bool :=
  let duration := run.last.stop - run.first.start
  let shortRun := (run.count ≤ maxWords ∧ duration ≤ maxSpanS) ∨ duration ≤ maxDurationS
  let gluedToFollowing := !endsSentence run.last.word && continuesSentence L next.first.word
  neighbour = next.label ∧ neighbour ≠ run.label ∧ shortRun ∧
    (!endsSentence before.word ∨ gluedToFollowing)

/-- The label of a run as smoothed; `previous` is the word before it, with its label. -/
def smoothedLabel (previous : Option (Word τ × String)) (run : LabelRun τ)
    (next : Option (LabelRun τ)) : String :=
  match previous, next with
  | some (before, neighbour), some next =>
    if absorbed L maxWords maxDurationS maxSpanS neighbour before run next then neighbour
    else run.label
  | _, _ => run.label

/-- The loop of `_smooth_islands`, run by run. -/
def smoothFrom (previous : Option (Word τ × String)) : List (LabelRun τ) → List String
  | [] => []
  | run :: runs =>
    let label := smoothedLabel L maxWords maxDurationS maxSpanS previous run runs.head?
    List.replicate run.count label ++ smoothFrom (some (run.last, label)) runs

/-- `_smooth_islands` -/
def smoothIslands (words : List (Word τ)) (labels : List String) : List String :=
  smoothFrom L maxWords maxDurationS maxSpanS none (labelRuns (words.zip labels))

end Smooth

/-! ### Snapping -/

/-- `items[index]` -/
def pyIndex {α : Type} (items : List α) (index : ℕ) : Except String α :=
  match items[index]? with
  | none => .error "list index out of range"
  | some item => .ok item

/-- `items[first:last] = [item] * (last - first)` -/
def fill {α : Type} (items : List α) (first last : ℕ) (item : α) : List α :=
  items.take first ++ List.replicate (last - first) item ++ items.drop last

section Snap

variable (L : Letters) (words : List (Word τ))

/-- The loop of `_sentence_end_behind`: `steps` indices are left, the next one is `next - 1`. -/
def sentenceEndBehindFrom (labels : List String) (left : String) :
    ℕ → ℕ → Except String (Option ℕ)
  | 0, _ => .ok none
  | _ + 1, 0 => .ok none
  | steps + 1, index + 1 => do
    if (← pyIndex labels index) ≠ left then return none
    if endsSentence (← pyIndex words index).word then return some index
    sentenceEndBehindFrom labels left steps index

/-- `_sentence_end_behind` -/
def sentenceEndBehind (labels : List String) (boundary : ℕ) (maxWords : ℤ) :
    Except String (Option ℕ) := do
  let left ← pyIndex labels (boundary - 1)
  sentenceEndBehindFrom words labels left maxWords.toNat (boundary - 1)

/-- The loop of `_sentence_end_ahead`: `steps` indices are left, the next one is `index`. -/
def sentenceEndAheadFrom (labels : List String) (right : String) :
    ℕ → ℕ → Except String (Option ℕ)
  | 0, _ => .ok none
  | steps + 1, index => do
    if words.length ≤ index then return none
    if (← pyIndex labels index) ≠ right then return none
    if endsSentence (← pyIndex words index).word then
      if index + 1 < words.length then
        if (← pyIndex labels (index + 1)) = right then return some index
      return none
    sentenceEndAheadFrom labels right steps (index + 1)

/-- `_sentence_end_ahead` -/
def sentenceEndAhead (labels : List String) (boundary : ℕ) (maxWords : ℤ) :
    Except String (Option ℕ) := do
  let right ← pyIndex labels boundary
  sentenceEndAheadFrom words labels right maxWords.toNat boundary

/-- The silence after `words[index]`. -/
def gapAfter (index : ℕ) : Except String τ := do
  return (← pyIndex words (index + 1)).start - (← pyIndex words index).stop

/-- `pull_right`: `none` where neither side offers a sentence boundary. -/
def pullRight (boundary : ℕ) : Option ℕ → Option ℕ → Except String (Option Bool)
  | none, none => .ok none
  | some _, none => .ok (some true)
  | none, some _ => .ok (some false)
  | some behind, some ahead => do
    let behindGap ← gapAfter words behind
    let aheadGap ← gapAfter words ahead
    if behindGap < aheadGap then return some false
    if aheadGap = behindGap then return some (boundary - 1 - behind ≤ ahead - boundary + 1)
    return some true

variable (maxWords : ℤ) (maxGapS : τ)

/-- The body of the loop of `_snap_boundaries`. -/
def snapBoundary (snapped : List String) (boundary : ℕ) : Except String (List String) := do
  let left ← pyIndex snapped (boundary - 1)
  let right ← pyIndex snapped boundary
  if left = right then return snapped
  if endsSentence (← pyIndex words (boundary - 1)).word then return snapped
  if !continuesSentence L (← pyIndex words boundary).word then return snapped
  if maxGapS < (← gapAfter words (boundary - 1)) then return snapped
  let behind ← sentenceEndBehind words snapped boundary maxWords
  let ahead ← sentenceEndAhead words snapped boundary maxWords
  match ← pullRight words boundary behind ahead, behind, ahead with
  | some true, some behind, _ => return fill snapped (behind + 1) boundary right
  | some false, _, some ahead => return fill snapped boundary (ahead + 1) left
  | _, _, _ => return snapped

/-- `_snap_boundaries` -/
def snapBoundaries (labels : List String) : Except String (List String) :=
  (List.range' 1 (words.length - 1)).foldlM (snapBoundary L words maxWords maxGapS) labels

end Snap

/-! ### Lines -/

/-- A word with the label `_group_labelled` reads at its index. -/
abbrev Labelled (τ : Type) := Word τ × Option String

section Lines

variable (tuning : AttributionKnobs τ) (bounded : Bool)

/-- The loop of `_line_end`, as the length of the line: `first` is at `start`, `length` is
`index - start`, `previous` is at `index - 1`, and `sentenceEnd` is `last_sentence_end - start`. -/
def lineLengthFrom (first : Labelled τ) (sentenceEnd : Option ℕ) (length : ℕ) (previous : Word τ) :
    List (Labelled τ) → ℕ
  | [] => length
  | (word, label) :: rest =>
    let gap := word.start - previous.stop
    let ends := endsSentence previous.word
    let lineS := previous.stop - first.1.start
    let sentenceEnd := if ends then some length else sentenceEnd
    if label ≠ first.2 ∨ tuning.hardGapSplitS < gap then length
    else if ends ∧ (tuning.gapSplitS < gap ∨ (bounded ∧ tuning.lineSentenceSplitS ≤ lineS)) then
      length
    else if bounded ∧
        (tuning.lineMaxWords ≤ length ∨ tuning.lineMaxS < word.stop - first.1.start) then
      sentenceEnd.getD length
    else lineLengthFrom first sentenceEnd (length + 1) word rest

/-- `_line_end`: how many of the words after the first belong to its line. -/
def lineLength (first : Labelled τ) (rest : List (Labelled τ)) : ℕ :=
  lineLengthFrom tuning bounded first none 1 first.1 rest - 1

/-- The segment of a line; `group[0]` and `group[-1]` give its times. -/
def lineSegment : List (Labelled τ) → Segment τ
  | [] => { start := 0, stop := 0, text := "" }
  | first :: rest =>
    let group := first.1 :: rest.map Prod.fst
    { start := first.1.start
      stop := (group.getLast (by simp [group])).stop
      speaker := first.2
      text := pyJoin " " (group.map Word.word)
      words := group }

/-- `_group_labelled` -/
def groupLabelled (words : List (Labelled τ)) : List (Segment τ) :=
  (pieces (lineLength tuning bounded) words).map lineSegment

end Lines

/-! ### Orphans -/

/-- `segment.words[-1].word`; read only where there are words. -/
def lastWord (segment : Segment τ) : String := (segment.words.getLast?.map Word.word).getD ""

/-- `segment.words[0].word`; read only where there are words. -/
def firstWord (segment : Segment τ) : String := (segment.words.head?.map Word.word).getD ""

/-- `_join_segments` -/
def joinSegments (first second : Segment τ) (speaker : Option String) : Segment τ :=
  { start := first.start
    stop := second.stop
    speaker := speaker.or second.speaker
    text := first.text ++ " " ++ second.text
    words := first.words ++ second.words }

section Orphans

variable (L : Letters) (maxWords : ℤ) (maxDurationS : τ)

/-- `_orphan` -/
def orphan (segment : Segment τ) (previous following : Option (Segment τ)) : Bool :=
  let neighbours := previous.toList ++ following.toList
  !segment.words.isEmpty && segment.words.length ≤ maxWords &&
    segment.stop - segment.start ≤ maxDurationS && !neighbours.isEmpty &&
    neighbours.all fun other => other.speaker ≠ segment.speaker ∧ !other.words.isEmpty

/-- The orphan reads on into the segment after it. -/
def gluedAhead (segment following : Segment τ) : Bool :=
  !endsSentence (lastWord segment) && continuesSentence L (firstWord following)

/-- The orphan finishes the sentence of the segment before it. -/
def gluedBehind (previous segment : Segment τ) : Bool :=
  !endsSentence (lastWord previous) && continuesSentence L (firstWord segment) &&
    endsSentence (lastWord segment)

/-- The loop of `_merge_short_orphans`: `previous` is `merged[-1]`, `segment` is at `index`. -/
def mergeFrom (previous : Option (Segment τ)) (segment : Segment τ) :
    List (Segment τ) → List (Segment τ)
  | [] =>
    match previous with
    | none => [segment]
    | some before =>
      if orphan maxWords maxDurationS segment previous none ∧ gluedBehind L before segment then
        [joinSegments before segment before.speaker]
      else [before, segment]
  | following :: rest =>
    if orphan maxWords maxDurationS segment previous (some following) ∧
        gluedAhead L segment following then
      mergeFrom previous (joinSegments segment following none) rest
    else
      match previous with
      | none => mergeFrom (some segment) following rest
      | some before =>
        if orphan maxWords maxDurationS segment previous (some following) ∧
            gluedBehind L before segment then
          mergeFrom (some (joinSegments before segment before.speaker)) following rest
        else before :: mergeFrom (some segment) following rest

/-- `_merge_short_orphans` -/
def mergeShortOrphans : List (Segment τ) → List (Segment τ)
  | [] => []
  | [segment] => [segment]
  | segment :: following :: rest => mergeFrom L maxWords maxDurationS none segment (following :: rest)

end Orphans

/-! ### Words to segments -/

section Assign

variable (L : Letters) (tuning : AttributionKnobs τ)

/-- The labels `assign_speakers` groups by; `words` and `turns` are sorted. -/
def speakerLabels (words : List (Word τ)) (turns : List (Turn τ)) : Except String (List String) := do
  let labels ← labelWords tuning.minCoverage tuning.inheritMaxGapS turns words
  let labels := smoothIslands L tuning.islandMaxWords tuning.islandMaxDurationS
    tuning.islandMaxSpanS words labels
  snapBoundaries L words tuning.boundaryMaxWords tuning.boundaryMaxGapS labels

/-- The lines of `assign_speakers` before orphans are merged. -/
def speakerLines (words : List (Word τ)) (turns : List (Turn τ)) :
    Except String (List (Segment τ)) := do
  let labels ← speakerLabels L tuning words turns
  return groupLabelled tuning false (words.zip (labels.map some))

/-- `assign_speakers` -/
def assignSpeakers (words : List (Word τ)) (turns : List (Turn τ)) :
    Except String (List (Segment τ)) := do
  if words = [] then return []
  let words := sortedBy Word.start words
  if turns = [] then return groupLabelled tuning false (words.map fun word => (word, none))
  let turns := sortedBy Turn.start turns
  let segments ← speakerLines L tuning words turns
  return mergeShortOrphans L tuning.minSegmentWords tuning.minSegmentDurationS segments

/-- `segments_without_speakers` -/
def segmentsWithoutSpeakers (words : List (Word τ)) : List (Segment τ) :=
  if words = [] then []
  else groupLabelled tuning true ((sortedBy Word.start words).map fun word => (word, none))

end Assign

end Vemsa.Pipeline
