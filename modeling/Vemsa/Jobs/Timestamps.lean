import Vemsa.Jobs.JobRequest
import Vemsa.Pipeline.Label

/-!
# Jobs — Timestamps

Which timestamps of an accepted request the pipeline reads, and when they make sense.

`_validate_task` compares floats, and every comparison with a `NaN` is false; an infinite end passes
too.  Words nested in segments are not checked at all, and `label_speakers` reads them when there
are no others (`callerWords_exact`).  `accepted_timestamps` is exact; `reversed_nested_word` and
`timeless_segment` are the two kinds of failure.
-/

namespace Vemsa.Jobs
open Vemsa.Support

/-! ### What is read -/

namespace RequestFields

variable {Url : Type} (r : RequestFields Url)

/-- The words `label_speakers` reads: the caller's, or those nested in the segments. -/
def labelledWords : List (Word PyFloat) :=
  if r.words.getD [] = [] then (r.segments.getD []).flatMap Segment.words else r.words.getD []

/-- The timestamps the pipeline reads: only `task=diarize` reads words. -/
def readSpans : List (PyFloat × PyFloat) :=
  (if r.task = .diarize then r.labelledWords.map fun word => (word.start, word.stop) else []) ++
    (r.segments.getD []).map fun segment => (segment.start, segment.stop)

end RequestFields

/-- The time a finite float stands for. -/
def exactTime : PyFloat → ℚ
  | .finite q => q
  | _ => 0

def Word.exact (w : Word PyFloat) : Word ℚ where
  word := w.word
  start := exactTime w.start
  stop := exactTime w.stop
  probability := w.probability.map exactTime

def Segment.exact (s : Segment PyFloat) : Segment ℚ where
  start := exactTime s.start
  stop := exactTime s.stop
  speaker := s.speaker
  text := s.text
  words := s.words.map Word.exact
  speakerAttribution := s.speakerAttribution
  overlapIds := s.overlapIds

/-- They are the words the pipeline labels. -/
theorem callerWords_exact {Url : Type} (r : RequestFields Url) :
    Pipeline.callerWords ((r.words.getD []).map Word.exact) ((r.segments.getD []).map Segment.exact) =
      r.labelledWords.map Word.exact := by
  rw [Pipeline.callerWords, RequestFields.labelledWords]
  by_cases hwords : r.words.getD [] = []
  · rw [if_pos hwords, if_pos (List.map_eq_nil_iff.mpr hwords), Pipeline.plainSegments, List.map_map,
      List.flatMap_map, List.map_flatMap]
    rfl
  · rw [if_neg hwords, if_neg (mt List.map_eq_nil_iff.mp hwords)]

/-! ### What is checked -/

/-- A pair of finite numbers with `0 <= start <= end`. -/
def Sane (span : PyFloat × PyFloat) : Prop :=
  ∃ start stop : ℚ, span = (.finite start, .finite stop) ∧ 0 ≤ start ∧ start ≤ stop

/-- What the comparisons let through. -/
theorem sane_iff {span : PyFloat × PyFloat}
    (h : (span.1.lt (.finite 0) || span.2.lt span.1) = false) :
    Sane span ↔ span.1.isFinite ∧ span.2.isFinite := by
  obtain ⟨start, stop⟩ := span
  rw [Bool.or_eq_false_iff] at h
  cases start with
  | finite p =>
      cases stop with
      | finite q =>
          refine iff_of_true ⟨p, q, rfl, ?_⟩ ⟨rfl, rfl⟩
          simpa [PyFloat.lt] using h
      | nan | posInf | negInf => simp [Sane, PyFloat.isFinite]
  | nan | posInf | negInf => simp [Sane, PyFloat.isFinite]

/-- A check that was passed. -/
theorem check_passed {c : Prop} [Decidable c] {message : String} {rest : Option String}
    (h : (if c then some message else rest) = none) : ¬ c ∧ rest = none := by
  by_cases hc : c
  · rw [if_pos hc] at h
    cases h
  · exact ⟨hc, by rwa [if_neg hc] at h⟩

section Validate

variable {Url : Type} {r : RequestFields Url} (h : r.validateTask = none)
include h

/-- A request for a transcription carries no transcript. -/
theorem no_transcript (htask : r.task = .transcribe) : r.words = none ∧ r.segments = none := by
  unfold RequestFields.validateTask at h
  extract_lets segments at h
  iterate 7 replace h := (check_passed h).2
  rw [if_pos htask] at h
  simpa using (check_passed h).1

/-- Any other request has every pair of its words and segments compared. -/
theorem spans_checked (htask : r.task ≠ .transcribe) :
    ∀ span ∈ r.spans, (span.1.lt (.finite 0) || span.2.lt span.1) = false := by
  unfold RequestFields.validateTask at h
  extract_lets segments at h
  iterate 7 replace h := (check_passed h).2
  rw [if_neg htask] at h
  iterate 6 replace h := (check_passed h).2
  simpa using (check_passed h).1

/-- Only `task=diarize` carries words of its own. -/
theorem no_words (htask : r.task ≠ .diarize) : r.words = none := by
  by_cases htranscribe : r.task = .transcribe
  · exact (no_transcript h htranscribe).1
  unfold RequestFields.validateTask at h
  extract_lets segments at h
  iterate 7 replace h := (check_passed h).2
  rw [if_neg htranscribe] at h
  replace h := (check_passed h).2
  have hwords := (check_passed h).1
  simp only [htask, not_false_eq_true, decide_true, Bool.true_and, Bool.or_eq_true, not_or, ne_eq] at hwords
  exact Option.not_isSome_iff_eq_none.mp hwords.1

/-- What is read is what is compared, and the nested words besides. -/
theorem readSpans_eq : r.readSpans =
    (if r.task = .diarize ∧ r.words.getD [] = [] then
      ((r.segments.getD []).flatMap Segment.words).map fun word => (word.start, word.stop) else []) ++
      r.spans := by
  rw [RequestFields.readSpans, RequestFields.spans, RequestFields.labelledWords]
  by_cases htask : r.task = .diarize
  · by_cases hwords : r.words.getD [] = []
    · simp [htask, hwords]
    · simp [htask, hwords]
  · simp [htask, no_words h htask]

end Validate

/-- **Exactly when an accepted request has sane timestamps**: those that are compared are finite, and
the words nested in segments, which are not, are sane where `task=diarize` has no others. -/
theorem accepted_timestamps {P : Pydantic} (request : JobRequest P) :
    (∀ span ∈ request.fields.readSpans, Sane span) ↔
      (∀ span ∈ request.fields.spans, span.1.isFinite ∧ span.2.isFinite) ∧
        (request.fields.task = .diarize → request.fields.words.getD [] = [] →
          ∀ segment ∈ request.fields.segments.getD [], ∀ word ∈ segment.words,
            Sane (word.start, word.stop)) := by
  have hspans : (∀ span ∈ request.fields.spans, Sane span) ↔
      ∀ span ∈ request.fields.spans, span.1.isFinite ∧ span.2.isFinite := by
    by_cases htask : request.fields.task = .transcribe
    · obtain ⟨hwords, hsegments⟩ := no_transcript request.task_valid htask
      simp [RequestFields.spans, hwords, hsegments]
    · exact forall₂_congr fun span hspan => sane_iff (spans_checked request.task_valid htask span hspan)
  rw [readSpans_eq request.task_valid, List.forall_mem_append, hspans, and_comm]
  refine and_congr_right fun _ => ?_
  split
  · rename_i hnested
    rw [List.forall_mem_map]
    refine ⟨fun hall _ _ segment hsegment word hword => hall word ?_, fun hall word hword => ?_⟩
    · exact List.mem_flatMap_of_mem hsegment hword
    · obtain ⟨segment, hsegment, hword⟩ := List.mem_flatMap.mp hword
      exact hall hnested.1 hnested.2 segment hsegment word hword
  · rename_i hnested
    refine iff_of_true (List.forall_mem_nil _) fun htask hwords => ?_
    exact absurd ⟨htask, hwords⟩ hnested

/-! ### Timestamps that make no sense -/

/-- The word ends before it starts, and starts before the audio. -/
def reversedNestedWord : Json :=
  .obj [("task", .str "diarize"), ("segments", .arr [.obj [("start", .num (.finite 0)),
    ("end", .num (.finite 1)), ("text", .str "hej"), ("words", .arr [.obj [("word", .str "hej"),
      ("start", .num (.finite (-1))), ("end", .num (.finite (-2)))]])]])]

def timelessSegment : Json :=
  .obj [("task", .str "align"), ("segments", .arr [.obj [("start", .num .nan), ("end", .num .posInf),
    ("text", .str "hej")]])]

/-- Both are accepted. -/
theorem reversed_nested_word :
    (∃ request, modelValidate .strict reversedNestedWord = .ok request ∧
      (.finite (-1), .finite (-2)) ∈ request.fields.readSpans ∧ ¬ Sane (.finite (-1), .finite (-2))) ∧
    ∃ request, modelValidate .strict timelessSegment = .ok request ∧
      (.nan, .posInf) ∈ request.fields.readSpans ∧ ¬ Sane (.nan, .posInf) := by
  refine ⟨⟨_, rfl, ?_, ?_⟩, ⟨_, rfl, ?_, ?_⟩⟩
  · decide
  · simp [Sane]
  · decide
  · simp [Sane]

end Vemsa.Jobs
