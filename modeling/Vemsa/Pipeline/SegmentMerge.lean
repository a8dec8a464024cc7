import Vemsa.Support.Json
import Vemsa.Pipeline.Diarize

/-!
# Pipeline — SegmentMerge

Where a transcript has no usable words, its segments are merged with the turns as they are.

* `relabelTurns`: clusters renamed after the labels a caller already assigned.
* `assignSpeakersToSegments`: each segment is labelled as a whole, or cut at the turns with its
  text sliced by time (`splitAtTurns`).
* `resolveSegments`: which merge a transcript gets.

Only a segment that is cut is built anew; one labelled as a whole stays as it is, words included.
-/

namespace Vemsa.Pipeline
open Vemsa.Support Vemsa.Jobs

variable {τ : Type} [Clock τ]

/-! ### Shares -/

/-- `shares[name] = shares.get(name, 0.0) + amount` -/
def tally (name : String) (amount : τ) : List (String × τ) → List (String × τ)
  | [] => [(name, 0 + amount)]
  | (other, sum) :: rest =>
    if other = name then (other, sum + amount) :: rest else (other, sum) :: tally name amount rest

/-- `sum(shares.values())` -/
def sumShares (shares : List (String × τ)) : τ := (shares.map Prod.snd).foldl (· + ·) 0

/-- `max(shares, key=lambda name: shares[name])` -/
def largestShare (shares : List (String × τ)) : Except String String :=
  match shares.argmax Prod.snd with
  | none => .error "max() iterable argument is empty"
  | some (name, _) => .ok name

/-- The loop that adds up who speaks how long from `start` to `stop`. -/
def addOverlaps (turns : List (Turn τ)) (start stop : τ) (shares : List (String × τ)) :
    List (String × τ) :=
  turns.foldl (fun shares turn =>
    if 0 < overlap start stop turn then tally turn.speaker (overlap start stop turn) shares
    else shares) shares

/-! ### Relabelling -/

/-- `spans`: the labelled speech of the caller's segments. -/
def labelledSpans (reference : List (Segment τ)) : List (Turn τ) :=
  reference.filterMap fun segment =>
    match segment.speaker with
    | none => none
    | some label => if label.isEmpty then none else some ⟨segment.start, segment.stop, label⟩

/-- `speaking_time` -/
def speakingTime (turns : List (Turn τ)) : List (String × τ) :=
  turns.foldl (fun sums turn => tally turn.speaker (turn.stop - turn.start) sums) []

/-- `overlap_by_label[cluster]` -/
def overlapByLabel (spans turns : List (Turn τ)) (cluster : String) : List (String × τ) :=
  (turns.filter fun turn => turn.speaker = cluster).foldl (fun shares turn =>
    addOverlaps spans turn.start turn.stop shares) []

/-- The caller's label a cluster takes, if any. -/
def callerLabel (minShare : τ) (shares : List (String × τ)) : Option String :=
  match shares.argmax fun entry => toLex (entry.2, entry.1) with
  | none => none
  | some (best, share) => if minShare * sumShares shares ≤ share then some best else none

/-- `f"SPEAKER_{index:02d}"` -/
def speakerName (index : ℕ) : String := "SPEAKER_" ++ zeroPadded 2 index

theorem speakerName_injective : Function.Injective speakerName := fun _ _ h =>
  zeroPadded_injective 2 (String.append_right_inj _ |>.mp h)

/-- Only finitely many names are taken. -/
theorem exists_fresh (taken : List String) (index : ℕ) :
    ∃ steps, speakerName (index + steps) ∉ taken := by
  by_contra h
  push Not at h
  have hinj : Function.Injective fun steps => speakerName (index + steps) :=
    fun _ _ heq => Nat.add_left_cancel (speakerName_injective heq)
  exact Set.infinite_range_of_injective hinj
    (taken.finite_toSet.subset (Set.range_subset_iff.mpr h))

/-- The loop over `unmatched`: `index` is `fresh_index`. -/
def freshNames (taken : List String) (index : ℕ) : List String → List (String × String)
  | [] => []
  | cluster :: rest =>
    let index := index + Nat.find (exists_fresh taken index)
    (cluster, speakerName index) :: freshNames (speakerName index :: taken) index rest

/-- `mapping` -/
def relabelling (minShare : τ) (spans turns : List (Turn τ)) : List (String × String) :=
  let clusters := (sortedBy (fun entry => toLex (0 - entry.2, entry.1)) (speakingTime turns)).map
    Prod.fst
  let label cluster := callerLabel minShare (overlapByLabel spans turns cluster)
  let matched := clusters.filterMap fun cluster => (label cluster).map (cluster, ·)
  let unmatched := clusters.filter fun cluster => (label cluster).isNone
  let taken := spans.map Turn.speaker ++ matched.map Prod.snd
  matched ++ freshNames taken 0 unmatched

/-- `relabel_turns`; every cluster is in the mapping. -/
def relabelTurns (minShare : τ) (turns : List (Turn τ)) (reference : List (Segment τ)) :
    List (Turn τ) :=
  let spans := labelledSpans reference
  if spans = [] ∨ turns = [] then turns
  else
    let mapping := relabelling minShare spans turns
    turns.map fun turn => { turn with speaker := (mapping.lookup turn.speaker).getD turn.speaker }

/-! ### Spans -/

/-- `_speaker_shares` -/
def speakerShares (segment : Segment τ) (turns : List (Turn τ)) : List (String × τ) :=
  addOverlaps turns segment.start segment.stop []

/-- An entry of `spans`; `speaker` is missing where nobody speaks. -/
structure Stretch (τ : Type) where
  start : τ
  stop : τ
  speaker : Option String

section Spans

variable (segment : Segment τ) (turns : List (Turn τ)) (shares : List (String × τ))

/-- `bounds` -/
def spanBounds : Finset τ :=
  let touching := turns.filter fun turn => segment.start < turn.stop ∧ turn.start < segment.stop
  {segment.start, segment.stop} ∪ (touching.map fun turn => max turn.start segment.start).toFinset ∪
    (touching.map fun turn => min turn.stop segment.stop).toFinset

/-- `shares[name]` -/
def shareOf (name : String) : Except String (String × τ) :=
  match shares.lookup name with
  | none => .error s!"KeyError: {name}"
  | some share => .ok (name, share)

/-- Who speaks from `start` to `stop`. -/
def coveringSpeaker (start stop : τ) : Except String (Option String) :=
  let midpoint := Seconds.half (start + stop)
  match turns.filter fun turn => turn.start < midpoint ∧ midpoint < turn.stop with
  | [] => .ok none
  | covering => do
    let covering ← covering.mapM fun turn => shareOf shares turn.speaker
    return some (← largestShare covering)

/-- The first loop of `_speaker_spans`: `spans` before silences join a neighbour. -/
def rawSpans : Except String (List (Stretch τ)) :=
  let ordered := (spanBounds segment turns).sort (· ≤ ·)
  (ordered.zip ordered.tail).mapM fun (start, stop) => do
    return ⟨start, stop, ← coveringSpeaker turns shares start stop⟩

/-- The second loop: a silence joins the span before it, the leading one `previous`. -/
def fillSilences (previous : Option String) : List (Stretch τ) → List (Stretch τ)
  | [] => []
  | span :: rest =>
    let speaker := span.speaker.or previous
    { span with speaker } :: fillSilences speaker rest

/-- `following` at the first span. -/
def firstSpeaker (spans : List (Stretch τ)) : Option String :=
  (spans.filterMap Stretch.speaker).find? fun speaker => !speaker.isEmpty

/-- The third loop: spans of one speaker are merged. -/
def mergeStretches : List (Stretch τ) → List (Stretch τ)
  | [] => []
  | span :: rest =>
    match mergeStretches rest with
    | [] => [span]
    | next :: merged =>
      if next.speaker = span.speaker then { span with stop := next.stop } :: merged
      else span :: next :: merged

/-- `_speaker_spans` -/
def speakerSpans : Except String (List (Turn τ)) := do
  let spans ← rawSpans segment turns shares
  return (mergeStretches (fillSilences (firstSpeaker spans) spans)).filterMap fun span =>
    span.speaker.map fun speaker => ⟨span.start, span.stop, speaker⟩

end Spans

/-! ### Cuts -/

/-- `abs(pos - offset)` -/
def distance (offset : ℤ) (pos : ℕ) : ℕ := ((pos : ℤ) - offset).natAbs

/-- `punctuation` -/
def punctuationCuts (text : Text) : List ℕ :=
  ((text.zip text.tail).zipIdx.filter fun ((c, next), _) =>
    c ∈ ['.', '?', '!'] ∧ isSpace next).map fun (_, index) => index + 1

/-- `spaces` -/
def spaceCuts (text : Text) : List ℕ :=
  (text.zipIdx.filter fun (c, _) => isSpace c).map Prod.snd

/-- `_snap_offset` -/
def snapOffset (text : Text) (offset : ℤ) (punctuationWindow : ℕ) : Option ℕ :=
  let nearestSpace := (spaceCuts text).argmin (distance offset)
  match (punctuationCuts text).argmin (distance offset) with
  | none => nearestSpace
  | some nearest => if distance offset nearest ≤ punctuationWindow then some nearest else nearestSpace

/-- `_dominant_speaker` -/
def dominantSpeaker (spans : List (Turn τ)) (start stop : τ) : Except String String :=
  largestShare (spans.foldl (fun totals span => tally span.speaker (overlap start stop span) totals) [])

/-- Where the text is cut at a time. -/
structure Boundary (τ : Type) where
  time : τ
  offset : ℕ

section Split

variable (segment : Segment τ) (spans : List (Turn τ))

/-- The loop over `spans[1:]`: `last` is `boundaries[-1][1]`. -/
def cutsFrom (punctuationWindow last : ℕ) : List (Turn τ) → List (Boundary τ)
  | [] => []
  | span :: rest =>
    let text := segment.text.toList
    let duration := segment.stop - segment.start
    let raw := Clock.round ((text.length : τ) * (span.start - segment.start) / duration)
    match snapOffset text raw punctuationWindow with
    | none => cutsFrom punctuationWindow last rest
    | some snapped =>
      if last < snapped ∧ snapped < text.length then
        ⟨span.start, snapped⟩ :: cutsFrom punctuationWindow snapped rest
      else cutsFrom punctuationWindow last rest

/-- `boundaries` -/
def textBoundaries (punctuationWindow : ℕ) : List (Boundary τ) :=
  ⟨segment.start, 0⟩ :: cutsFrom segment punctuationWindow 0 spans.tail ++
    [⟨segment.stop, segment.text.toList.length⟩]

/-- The body of the loop over neighbouring boundaries. -/
def addPiece (pieces : List (Segment τ)) (first last : Boundary τ) :
    Except String (List (Segment τ)) := do
  let text := pyStrip (.ofList ((segment.text.toList.take last.offset).drop first.offset))
  if text.isEmpty then return pieces
  let speaker ← dominantSpeaker spans first.time last.time
  let piece : Segment τ := { start := first.time, stop := last.time, speaker := some speaker, text }
  match pieces.getLast? with
  | none => return [piece]
  | some previous =>
    if previous.speaker = some speaker then
      return pieces.dropLast ++ [{ previous with stop := last.time, text := previous.text ++ " " ++ text }]
    return pieces ++ [piece]

/-- `_split_segment`; the segment has a duration. -/
def splitAtTurns (turns : List (Turn τ)) (shares : List (String × τ)) (punctuationWindow : ℕ) :
    Except String (List (Segment τ)) := do
  let spans ← speakerSpans segment turns shares
  if spans.length < 2 then return []
  let boundaries := textBoundaries segment spans punctuationWindow
  let pieces ← (boundaries.zip boundaries.tail).foldlM (fun pieces (first, last) =>
    addPiece segment spans pieces first last) []
  return if 1 < pieces.length then pieces else []

end Split

/-! ### Segments to segments -/

/-- The keyword arguments of `assign_speakers_to_segments`, with their defaults. -/
structure SplitKnobs (τ : Type) [Clock τ] where
  splitThreshold : τ := 0.25
  minSplitDurationS : τ := 2.0
  minSplitWords : ℕ := 4
  punctuationSnapChars : ℕ := 12

section Assign

variable (knobs : SplitKnobs τ) (turns : List (Turn τ))

/-- `splittable`; `majority` is the largest share. -/
def splittable (segment : Segment τ) (shares : List (String × τ)) (majority : τ) : Bool :=
  majority < (1.0 - knobs.splitThreshold) * sumShares shares ∧
    knobs.minSplitDurationS ≤ segment.stop - segment.start ∧
    knobs.minSplitWords ≤ (tokens isSpace segment.text.toList).length

/-- `pieces`: more than one where the segment is cut. -/
def piecesOf (segment : Segment τ) : Except String (List (Segment τ)) := do
  let shares := speakerShares segment turns
  match shares.argmax Prod.snd with
  | none => return []
  | some (_, majority) =>
    if splittable knobs segment shares majority then
      splitAtTurns segment turns shares knobs.punctuationSnapChars
    else return []

/-- The speaker of a segment that stays whole. -/
def wholeSpeaker (previous : Option String) (segment : Segment τ) : Except String String := do
  let shares := speakerShares segment turns
  if shares = [] then
    let fallback ← nearestTurn segment.start segment.stop turns
    return previous.getD fallback.speaker
  largestShare shares

/-- The body of the loop of `assign_speakers_to_segments`: what becomes of a segment; `previous`
is the speaker before it. -/
def assignSegment (previous : Option String) (segment : Segment τ) :
    Except String (List (Segment τ)) := do
  let pieces ← piecesOf knobs turns segment
  if 1 < pieces.length then return pieces
  let speaker ← wholeSpeaker turns previous segment
  return [{ segment with speaker := some speaker }]

/-- The loop, as what becomes of each segment. -/
def assignFrom (previous : Option String) : List (Segment τ) →
    Except String (List (List (Segment τ)))
  | [] => .ok []
  | segment :: rest => do
    let labelled ← assignSegment knobs turns previous segment
    let last := labelled.getLast?.bind Segment.speaker
    return labelled :: (← assignFrom last rest)

/-- `assign_speakers_to_segments` -/
def assignSpeakersToSegments (segments : List (Segment τ)) : Except String (List (Segment τ)) := do
  if segments = [] ∨ turns = [] then return segments
  return (← assignFrom knobs (sortedBy Turn.start turns) none segments).flatten

end Assign

/-- `resolve_segments` -/
def resolveSegments (L : Letters) (tuning : AttributionKnobs τ) (words : List (Word τ))
    (plainSegments : List (Segment τ)) (turns : Option (List (Turn τ))) :
    Except String (List (Segment τ)) :=
  match turns with
  | some turns =>
    if words ≠ [] then assignSpeakers L tuning words turns
    else assignSpeakersToSegments {} turns plainSegments
  | none =>
    if plainSegments ≠ [] then .ok plainSegments else .ok (segmentsWithoutSpeakers tuning words)

/-! ### Words

A segment that is cut is built anew, so the words in it are gone. -/

/-- No segment carries words. -/
def Wordless (segments : List (Segment τ)) : Prop := ∀ segment ∈ segments, segment.words = []

theorem addPiece_wordless {segment : Segment τ} {spans : List (Turn τ)} {first last : Boundary τ}
    {pieces pieces' : List (Segment τ)} (h : addPiece segment spans pieces first last = .ok pieces')
    (hpieces : Wordless pieces) : Wordless pieces' := by
  unfold addPiece at h
  extract_lets text at h
  split at h
  · cases h
    exact hpieces
  · obtain ⟨speaker, -, h⟩ := except_bind_eq_ok.mp h
    cases hlast : pieces.getLast? with
    | none =>
        rw [hlast] at h
        cases h
        exact List.forall_mem_singleton.mpr rfl
    | some previous =>
        rw [hlast] at h
        have hprevious : previous.words = [] := hpieces previous (List.mem_of_getLast? hlast)
        dsimp only at h
        split at h
        · cases h
          exact List.forall_mem_append.mpr ⟨fun piece hp => hpieces piece (List.mem_of_mem_dropLast hp),
            List.forall_mem_singleton.mpr hprevious⟩
        · cases h
          exact List.forall_mem_append.mpr ⟨hpieces, List.forall_mem_singleton.mpr rfl⟩

theorem splitAtTurns_wordless {segment : Segment τ} {turns : List (Turn τ)}
    {shares : List (String × τ)} {window : ℕ} {pieces : List (Segment τ)}
    (h : splitAtTurns segment turns shares window = .ok pieces) : Wordless pieces := by
  obtain ⟨spans, -, h⟩ := except_bind_eq_ok.mp h
  split at h
  · cases h
    exact List.forall_mem_nil _
  · obtain ⟨all, hall, h⟩ := except_bind_eq_ok.mp h
    cases h
    have hwordless : Wordless all := foldlM_keeps _
      (fun _ _ _ _ hpieces hadd => addPiece_wordless hadd hpieces) (List.forall_mem_nil _) hall
    split
    · exact hwordless
    · exact List.forall_mem_nil _

section Cut

variable {knobs : SplitKnobs τ} {turns : List (Turn τ)}

variable (knobs turns) in
/-- The segment is cut at the turns. -/
def IsCut (segment : Segment τ) : Prop :=
  ∃ pieces, piecesOf knobs turns segment = .ok pieces ∧ 1 < pieces.length

theorem piecesOf_wordless {segment : Segment τ} {pieces : List (Segment τ)}
    (h : piecesOf knobs turns segment = .ok pieces) : Wordless pieces := by
  unfold piecesOf at h
  extract_lets shares at h
  split at h
  · cases h
    exact List.forall_mem_nil _
  · split at h
    · exact splitAtTurns_wordless h
    · cases h
      exact List.forall_mem_nil _

/-- What becomes of a segment carries no words iff the segment carries none or is cut. -/
theorem assignSegment_wordless {previous : Option String} {segment : Segment τ}
    {labelled : List (Segment τ)} (h : assignSegment knobs turns previous segment = .ok labelled) :
    Wordless labelled ↔ segment.words = [] ∨ IsCut knobs turns segment := by
  obtain ⟨pieces, hpieces, h⟩ := except_bind_eq_ok.mp h
  split at h
  · rename_i hmany
    cases h
    exact iff_of_true (piecesOf_wordless hpieces) (.inr ⟨_, hpieces, hmany⟩)
  · rename_i hone
    obtain ⟨speaker, -, h⟩ := except_bind_eq_ok.mp h
    cases h
    have hwhole : ¬ IsCut knobs turns segment := fun ⟨pieces', hpieces', hmany⟩ =>
      hone (Except.ok.inj (hpieces.symm.trans hpieces') ▸ hmany)
    rw [or_iff_left hwhole]
    exact List.forall_mem_singleton

theorem assignFrom_wordless {previous : Option String} {segments : List (Segment τ)}
    {labelled : List (List (Segment τ))} (h : assignFrom knobs turns previous segments = .ok labelled) :
    Wordless labelled.flatten ↔ ∀ segment ∈ segments, segment.words = [] ∨ IsCut knobs turns segment := by
  induction segments generalizing previous labelled with
  | nil =>
      cases h
      exact iff_of_true (List.forall_mem_nil _) (List.forall_mem_nil _)
  | cons segment rest ih =>
      obtain ⟨first, hfirst, h⟩ := except_bind_eq_ok.mp h
      obtain ⟨others, hothers, h⟩ := except_bind_eq_ok.mp h
      cases h
      rw [List.flatten_cons, Wordless, List.forall_mem_append, List.forall_mem_cons]
      exact and_congr (assignSegment_wordless hfirst) (ih hothers)

/-- **Words survive a merge of segments exactly in the segments that stay whole.** -/
theorem assignSpeakersToSegments_wordless {segments labelled : List (Segment τ)}
    (h : assignSpeakersToSegments knobs turns segments = .ok labelled) :
    Wordless labelled ↔ ∀ segment ∈ segments, segment.words = [] ∨
      (turns ≠ [] ∧ IsCut knobs (sortedBy Turn.start turns) segment) := by
  unfold assignSpeakersToSegments at h
  split at h
  · rename_i hempty
    cases h
    rcases hempty with rfl | rfl
    · exact iff_of_true (List.forall_mem_nil _) (List.forall_mem_nil _)
    · simp [Wordless]
  · rename_i hne
    obtain ⟨parts, hparts, h⟩ := except_bind_eq_ok.mp h
    cases h
    have hturns : turns ≠ [] := fun hnil => hne (.inr hnil)
    simp only [assignFrom_wordless hparts, ne_eq, hturns, not_false_eq_true, true_and]

theorem resolveSegments_wordless {L : Letters} {tuning : AttributionKnobs τ}
    {plainSegments labelled : List (Segment τ)} {turns : Option (List (Turn τ))}
    (h : resolveSegments L tuning [] plainSegments turns = .ok labelled) :
    Wordless labelled ↔ ∀ segment ∈ plainSegments, segment.words = [] ∨
      ∃ heard ∈ turns, heard ≠ [] ∧ IsCut {} (sortedBy Turn.start heard) segment := by
  cases turns with
  | none =>
      have hlabelled : labelled = plainSegments := by
        simp only [resolveSegments] at h
        split at h
        · exact (Except.ok.inj h).symm
        · rename_i hnil
          rw [not_not.mp hnil]
          exact (Except.ok.inj h).symm
      rw [hlabelled]
      exact forall₂_congr fun segment _ => by simp
  | some heard =>
      rw [assignSpeakersToSegments_wordless h]
      exact forall₂_congr fun segment _ => by simp

end Cut

end Vemsa.Pipeline
