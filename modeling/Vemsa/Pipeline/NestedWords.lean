import Vemsa.Support.Pieces
import Vemsa.Pipeline.AssignSpeakers
import Vemsa.Pipeline.Rungs

/-!
# Pipeline — NestedWords

The words of a payload that also has segments, on the two ways to a result.

* Diarized, the flat list is grouped anew, so every word is kept once.
* Undiarized, the segments go out as they are, with the copies `parse_verbose_json` nested into them:
  a word is there as often as its midpoint lies in a segment (`nested_words_once`).  Segments need
  neither touch nor be apart, and the end of a segment is not in it.
-/

namespace Vemsa.Pipeline
open Vemsa.Support Vemsa.Jobs

section Reading

variable {τ : Type} [Seconds τ] {casts : Casts τ} {payload : Payload}

theorem requestTranscription_ok {response : Json}
    (h : requestTranscription casts response = .ok payload) :
    ∃ duration, payloadDuration casts payload = .ok duration := by
  cases response with
  | obj fields =>
      rw [requestTranscription] at h
      split at h
      · cases h
      · split at h
        · cases h
        · rename_i duration hduration
          obtain rfl : fields = payload := Except.ok.inj h
          exact ⟨duration, hduration⟩
  | _ => cases h

theorem buildResult_ok {duration : τ} (hduration : payloadDuration casts payload = .ok duration)
    (segments : List (Segment τ)) (model language : String) (alignment : Option Jobs.Alignment) :
    ∃ result, buildResult casts payload segments model language alignment = .ok result := by
  unfold buildResult
  rw [hduration]
  exact ⟨_, rfl⟩

/-- **Every word is nested once** iff its midpoint, however that is rounded, lies in exactly one
segment. -/
theorem nested_perm_iff {words : List (Word τ)} {segments : List (Segment τ)}
    (h : parseVerboseJson casts payload = .ok (words, segments)) :
    (segments.flatMap Segment.words).Perm words ↔
      ∀ word ∈ words, segments.countP (midpointIn word) = 1 := by
  rw [List.flatMap_congr (parseVerboseJson_words h)]
  exact flatMap_filter_perm_iff midpointIn words segments

end Reading

namespace OpenAIWhisperEngine

variable {engine : Engine} {response : Json} {payload : Payload} {words : List (Word ℚ)}
  {segments : List (Segment ℚ)}

/-- A run without diarization returns. -/
theorem transcribe_undiarized (hpayload : requestTranscription engine.casts response = .ok payload)
    (hparse : parseVerboseJson engine.casts payload = .ok (words, segments))
    (language model : String) (speakers : Option SpeakerBounds) (includeSpeakerReview : Bool) :
    ∃ result, transcribe engine response language model false speakers includeSpeakerReview =
      .ok result := by
  obtain ⟨labelled, hlabelled⟩ : ∃ labelled, resolveSegments engine.letters engine.tuning
      (gatedWords words segments) segments none = .ok labelled := by
    unfold resolveSegments
    dsimp only
    split
    · exact ⟨_, rfl⟩
    · exact ⟨_, rfl⟩
  obtain ⟨duration, hduration⟩ := requestTranscription_ok hpayload
  obtain ⟨base, hbase⟩ := buildResult_ok hduration labelled model language (some
    (if gatedWords words segments ≠ [] then .providerWords
      else segmentMergeAlignment segments labelled))
  refine ⟨applySpeakerReview base none, ?_⟩
  simp only [transcribe, except_bind_eq_ok]
  exact ⟨payload, hpayload, (words, segments), hparse, (none, none), rfl, labelled, hlabelled, base,
    hbase, rfl⟩

theorem turnsAndReview_undiarized {speakers : Option SpeakerBounds} {includeSpeakerReview : Bool}
    {turns : Option (List (Turn ℚ))} {review : Option SpeakerReview}
    (h : engine.turnsAndReview false speakers includeSpeakerReview = .ok (turns, review)) :
    turns = none :=
  (congrArg Prod.fst (Except.ok.inj h)).symm

theorem turnsAndReview_diarized {speakers : Option SpeakerBounds} {includeSpeakerReview : Bool}
    {turns : Option (List (Turn ℚ))} {review : Option SpeakerReview}
    (h : engine.turnsAndReview true speakers includeSpeakerReview = .ok (turns, review)) :
    ∃ heard, turns = some heard := by
  obtain ⟨⟨heard, _⟩, -, h⟩ := except_bind_eq_ok.mp h
  exact ⟨heard, (congrArg Prod.fst (Except.ok.inj h)).symm⟩

end OpenAIWhisperEngine

/-- **Nested words**: a diarized run keeps every plausible word of a payload with segments once; an
undiarized one does iff each word's midpoint lies in exactly one segment. -/
theorem nested_words_once (engine : Engine) {response : Json} {payload : Payload}
    {words : List (Word ℚ)} {segments : List (Segment ℚ)} (language model : String)
    (speakers : Option SpeakerBounds) (includeSpeakerReview : Bool)
    (hpayload : requestTranscription engine.casts response = .ok payload)
    (hparse : parseVerboseJson engine.casts payload = .ok (words, segments))
    (hwords : words ≠ []) (hsegments : segments ≠ []) (hkeep : wordsPlausible words = true) :
    (∀ result, OpenAIWhisperEngine.transcribe engine response language model true speakers
        includeSpeakerReview = .ok result →
      result.alignment = some .providerWords ∧
        (result.segments.flatMap Segment.words).Perm words) ∧
    ∃ result, OpenAIWhisperEngine.transcribe engine response language model false speakers
        includeSpeakerReview = .ok result ∧
      result.alignment = some .providerWords ∧
      ((result.segments.flatMap Segment.words).Perm words ↔
        ∀ word ∈ words, segments.countP (midpointIn word) = 1) := by
  have hkept : OpenAIWhisperEngine.gatedWords words segments = words :=
    if_neg fun hgate => hgate.2.2 hkeep
  constructor
  · intro result h
    obtain ⟨turns, review, labelled, hturns, hlabelled, hflat, hrung⟩ :=
      OpenAIWhisperEngine.transcribe_eq_ok hpayload hparse h
    rw [hkept] at hlabelled hrung
    rw [if_pos hwords] at hrung
    refine ⟨hrung, ?_⟩
    obtain ⟨heard, rfl⟩ := OpenAIWhisperEngine.turnsAndReview_diarized hturns
    have hgrouped : assignSpeakers engine.letters engine.tuning words heard = .ok labelled := by
      simpa only [resolveSegments, ne_eq, hwords, not_false_eq_true, if_true] using hlabelled
    rw [hflat]
    exact (assignSpeakers_words hgrouped).perm
  · obtain ⟨result, h⟩ := OpenAIWhisperEngine.transcribe_undiarized hpayload hparse language model
      speakers includeSpeakerReview
    obtain ⟨turns, review, labelled, hturns, hlabelled, hflat, hrung⟩ :=
      OpenAIWhisperEngine.transcribe_eq_ok hpayload hparse h
    rw [hkept] at hlabelled hrung
    rw [if_pos hwords] at hrung
    refine ⟨result, h, hrung, ?_⟩
    obtain rfl := OpenAIWhisperEngine.turnsAndReview_undiarized hturns
    -- the segments go out verbatim, with the copies nested into them
    obtain rfl : segments = labelled := by
      simpa only [resolveSegments, ne_eq, hsegments, not_false_eq_true, if_true, Except.ok.injEq]
        using hlabelled
    rw [hflat]
    exact nested_perm_iff hparse

/-- Two segments that overlap: the midpoint of "Hej" lies in both, that of "ja" at the end of the
second. -/
def overlappingPayload : Payload :=
  let timed (key text : String) (start stop : ℚ) : Json :=
    .obj [(key, .str text), ("start", .num (.finite start)), ("end", .num (.finite stop))]
  [("words", .arr [timed "word" "Hej" 1 2, timed "word" "ja" 2 4]),
    ("segments", .arr [timed "text" "Hej" 0 2, timed "text" "Hej ja" 1 3])]

def overlappingWords : List (Word ℚ) := [⟨"Hej", 1, 2, none⟩, ⟨"ja", 2, 4, none⟩]

def overlappingSegments : List (Segment ℚ) :=
  [⟨0, 2, none, "Hej", overlappingWords.take 1, none, []⟩,
    ⟨1, 3, none, "Hej ja", overlappingWords.take 1, none, []⟩]

/-- Undiarized, "Hej" comes back twice and "ja" not at all. -/
def overlappingResult : TranscriptionResult ℚ where
  language := "sv"
  durationSeconds := 3
  model := "kb-whisper"
  text := renderText overlappingSegments
  segments := overlappingSegments
  alignment := some .providerWords

theorem overlapping_run :
    parseVerboseJson .plain overlappingPayload = .ok (overlappingWords, overlappingSegments) ∧
      wordsPlausible overlappingWords = true ∧
      OpenAIWhisperEngine.transcribe oneVoice (.obj overlappingPayload) "sv" "kb-whisper" false none
        false = .ok overlappingResult := by
  decide +kernel

theorem nested_words_overlap :
    ∃ result, parseVerboseJson .plain overlappingPayload = .ok (overlappingWords, overlappingSegments) ∧
      wordsPlausible overlappingWords = true ∧
      OpenAIWhisperEngine.transcribe oneVoice (.obj overlappingPayload) "sv" "kb-whisper" false none
        false = .ok result ∧
      result.alignment = some .providerWords ∧
      result.segments.flatMap Segment.words = [⟨"Hej", 1, 2, none⟩, ⟨"Hej", 1, 2, none⟩] ∧
      ¬ (result.segments.flatMap Segment.words).Perm overlappingWords := by
  obtain ⟨hparse, hkeep, hrun⟩ := overlapping_run
  refine ⟨overlappingResult, hparse, hkeep, hrun, rfl, rfl, fun hperm => ?_⟩
  -- "ja" is a word of the payload
  have hmem : (⟨"ja", 2, 4, none⟩ : Word ℚ) ∈ overlappingResult.segments.flatMap Segment.words :=
    hperm.mem_iff.mpr (by simp [overlappingWords])
  simp [overlappingResult, overlappingSegments, overlappingWords] at hmem

theorem nested_words_once_overlap :
    ∃ result, OpenAIWhisperEngine.transcribe oneVoice (.obj overlappingPayload) "sv" "kb-whisper"
        false none false = .ok result ∧
      result.alignment = some .providerWords ∧
      ((result.segments.flatMap Segment.words).Perm overlappingWords ↔
        ∀ word ∈ overlappingWords, overlappingSegments.countP (midpointIn word) = 1) :=
  have hparse := overlapping_run.1
  (nested_words_once oneVoice "sv" "kb-whisper" none false rfl hparse (List.cons_ne_nil _ _)
    (List.cons_ne_nil _ _) overlapping_run.2.1).2

end Vemsa.Pipeline
