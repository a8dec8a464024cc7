import Vemsa.Jobs.JobRequest
import Vemsa.Pipeline.Hybrid
import Vemsa.Pipeline.Rungs

/-!
# Pipeline — WholeText

What of a transcript reaches the aligner.  The text of a transcript is its segments', and where no
segment has any, its words'; the windows should hold the same tokens.

Segments keep theirs on every way (`textTokens_alignmentInput`, `handedTokens_alignmentTranscript`).
The words' text is lost where the code looks whether a list is there instead of what it says:
`HybridEngine.transcribe` falls back on the payload's `text`, which need not be there, and
`label_speakers` on nothing at all once there are segments (`whole_text`, `lost_text`).
-/

namespace Vemsa.Pipeline
open Vemsa.Support Vemsa.Jobs

/-! ### Tokens -/

/-- `text.split()` -/
def tokensOf (text : String) : List Text := tokens isSpace text.toList

theorem tokensOf_pyStrip (text : String) : tokensOf (pyStrip text) = tokensOf text := by
  rw [tokensOf, toList_pyStrip, (splitsAt_tokens isSpace).strip, ← tokensOf]

theorem tokensOf_pyJoin (parts : List String) :
    tokensOf (pyJoin " " parts) = parts.flatMap tokensOf := by
  rw [tokensOf, toList_pyJoin]
  exact ((splitsAt_tokens isSpace).intersperse (c := ' ') rfl _).trans (List.flatMap_map _ _ _)

section Segments

variable {τ : Type}

def textTokens (segments : List (Segment τ)) : List Text :=
  segments.flatMap fun segment => tokensOf segment.text

theorem hasText_iff {segment : Segment τ} : hasText segment = true ↔ tokensOf segment.text ≠ [] := by
  rw [hasText, Bool.not_eq_true', ← Bool.not_eq_true, String.isEmpty_iff, ← String.toList_eq_nil_iff,
    toList_pyStrip, strip_eq_nil_iff, ← tokens_eq_nil_iff, tokensOf]

theorem textTokens_ne_nil {segments : List (Segment τ)} :
    textTokens segments ≠ [] ↔ ∃ segment ∈ segments, hasText segment = true := by
  simp only [textTokens, ne_eq, List.flatMap_eq_nil_iff, not_forall, exists_prop, hasText_iff]

/-- Blank segments hold no token. -/
theorem textTokens_filter (segments : List (Segment τ)) :
    textTokens (segments.filter hasText) = textTokens segments := by
  induction segments with
  | nil => rfl
  | cons segment rest ih =>
      by_cases h : hasText segment = true
      · rw [List.filter_cons_of_pos h, textTokens, List.flatMap_cons, ← textTokens, ih]
        rfl
      · have hnil : tokensOf segment.text = [] := not_not.mp (mt hasText_iff.mpr h)
        rw [List.filter_cons_of_neg h, ih, textTokens, textTokens, List.flatMap_cons, hnil,
          List.nil_append]

/-- The tokens of the windows' texts, in order. -/
def handedTokens (windows : List (Window τ)) : List Text :=
  tokensOf (pyJoin " " (windows.map Window.text))

variable [Clock τ]

/-- **Joined into one window or not**, the text is the segments'. -/
theorem textTokens_alignmentInput (segments : List (Segment τ)) (windowsTrusted : Bool)
    (totalDuration : τ) :
    textTokens (alignmentInput segments windowsTrusted totalDuration) = textTokens segments := by
  unfold alignmentInput
  split
  · rfl
  · rw [textTokens, List.flatMap_singleton, tokensOf_pyJoin, List.flatMap_map]
    simp only [tokensOf_pyStrip]
    exact textTokens_filter segments

/-- **The windows hold the segments' text**, or the fallback where there is none. -/
theorem handedTokens_alignmentTranscript (segments : List (Segment τ)) (fallbackText : String)
    (fallbackEnd : τ) :
    handedTokens (alignmentTranscript segments fallbackText fallbackEnd) =
      if textTokens segments = [] then tokensOf fallbackText else textTokens segments := by
  rw [handedTokens, tokensOf_pyJoin, List.flatMap_map, ← textTokens_filter]
  unfold alignmentTranscript
  cases h : segments.filter hasText with
  | nil => simp [textTokens, tokensOf_pyStrip]
  | cons segment rest =>
      have hne : textTokens (segment :: rest) ≠ [] := by
        rw [← h, textTokens_ne_nil]
        refine ⟨segment, ?_, ?_⟩
        · rw [h]
          exact List.mem_cons_self
        · exact (List.mem_filter.mp (h ▸ List.mem_cons_self)).2
      rw [if_neg hne, List.flatMap_map]
      rfl

end Segments

/-! ### The transcript -/

/-- The segments' text if any has some, otherwise the words'. -/
def transcriptText (segments : List (Segment ℚ)) (words : List (Word ℚ)) : String :=
  if segments.any hasText then pyJoin " " (segments.map Segment.text) else callerText words

theorem tokensOf_transcriptText (segments : List (Segment ℚ)) (words : List (Word ℚ)) :
    tokensOf (transcriptText segments words) =
      if textTokens segments = [] then tokensOf (callerText words) else textTokens segments := by
  have hany : segments.any hasText = true ↔ textTokens segments ≠ [] := by
    rw [List.any_eq_true, textTokens_ne_nil]
  unfold transcriptText
  by_cases h : textTokens segments = []
  · rw [if_neg (mt hany.mp (not_not.mpr h)), if_pos h]
  · rw [if_pos (hany.mpr h), if_neg h, tokensOf_pyJoin, List.flatMap_map, textTokens]

theorem textTokens_plainSegments (segments : List (Segment ℚ)) :
    textTokens (plainSegments segments) = textTokens segments := by
  rw [textTokens, plainSegments, List.flatMap_map]
  rfl

/-- What `label_speakers` hands the aligner: the words' text counts only where there are no
segments. -/
theorem textTokens_labelWindows (audio : Audio ℚ) (words : List (Word ℚ))
    (segments : List (Segment ℚ)) :
    textTokens (labelWindows audio words segments) =
      if segments = [] then tokensOf (callerText words) else textTokens segments := by
  have hplain : plainSegments segments = [] ↔ segments = [] := List.map_eq_nil_iff
  unfold labelWindows
  by_cases h : segments = []
  · rw [if_neg (not_not.mpr (hplain.mpr h)), if_pos h, textTokens, List.flatMap_singleton]
  · rw [if_pos (mt hplain.mp h), if_neg h, textTokens_alignmentInput, textTokens_plainSegments]

/-! ### The aligner -/

/-- The run hands the alignment library these windows, and no others: it fails as the library does on
them, and depends on it only through what it makes of them. -/
structure Hands {α : Type} (engine : Engine) (windows : List (Window ℚ)) (language : String)
    (run : Engine → Except String α) : Prop where
  fails : ∀ error, engine.align windows language = .error error → run engine = .error error
  depends : ∀ align, align windows language = engine.align windows language →
    run { engine with align } = run engine

/-- A hybrid run hands over the windows made of the payload. -/
theorem HybridEngine.transcribe_hands (engine : Engine) (audio : Audio ℚ) {response : Json}
    {payload : Payload} {words : List (Word ℚ)} {segments : List (Segment ℚ)} {duration : ℚ}
    (language model : String) (diarize : Bool) (speakers : Option SpeakerBounds)
    (includeSpeakerReview : Bool)
    (hpayload : requestTranscription engine.casts response = .ok payload)
    (hparse : parseVerboseJson engine.casts payload = .ok (words, segments))
    (hduration : payloadDuration engine.casts payload = .ok duration) :
    Hands engine (alignedWindows audio (alignSegments duration words segments)
        (payloadText engine.casts payload)) language
      fun engine => transcribe engine audio response language model diarize speakers
        includeSpeakerReview where
  fails error herror := by
    simp only [transcribe, forceAlignSegments, hpayload, except_ok_bind, hparse, hduration,
      if_neg (not_and.mpr (parseVerboseJson_ne_nil hparse)), herror]
    rfl
  depends align halign := by
    simp only [transcribe, forceAlignSegments, hpayload, except_ok_bind, hparse, hduration, halign]
    rfl

/-- So does a run of `label_speakers` that aligns. -/
theorem labelSpeakers_hands (engine : Engine) (audio : Audio ℚ) {words : List (Word ℚ)}
    {segments : List (Segment ℚ)} (language model : String) (speakers : Option SpeakerBounds)
    (includeSpeakerReview : Bool)
    (haligns : trustedWords engine.diarizePreferAlign (callerWords words segments) = []) :
    Hands engine (alignedWindows audio
        (labelWindows audio (callerWords words segments) segments) "") language
      fun engine => engine.labelSpeakers audio words segments language model speakers
        includeSpeakerReview where
  fails error herror := by
    simp only [Engine.labelSpeakers, labelSpeakers, mergedWords, haligns, ne_eq, not_true_eq_false,
      if_false, Engine.segmentAligner, forceAlignSegments, herror]
    rfl
  depends align halign := by
    simp only [Engine.labelSpeakers, labelSpeakers, mergedWords, haligns, ne_eq, not_true_eq_false,
      if_false, Engine.segmentAligner, forceAlignSegments, halign]

/-! ### Nothing lost, nothing added -/

theorem tokensOf_callerText_eq_nil {words : List (Word ℚ)} :
    tokensOf (callerText words) = [] ↔ ∀ word ∈ words, tokensOf word.word = [] := by
  rw [callerText, tokensOf_pyJoin, List.flatMap_map, List.flatMap_eq_nil_iff]

/-- Of a payload the windows hold the whole text iff a segment has some, or else the payload's `text`
holds the words'. -/
theorem handedTokens_payload {casts : Casts ℚ} (payload : Payload) (audio : Audio ℚ) (duration : ℚ)
    (words : List (Word ℚ)) (segments : List (Segment ℚ)) :
    handedTokens (alignedWindows audio (HybridEngine.alignSegments duration words segments)
        (payloadText casts payload)) = tokensOf (transcriptText segments words) ↔
      (∃ segment ∈ segments, hasText segment = true) ∨
        tokensOf (payloadText casts payload) = tokensOf (callerText words) := by
  rw [alignedWindows, handedTokens_alignmentTranscript, HybridEngine.alignSegments,
    textTokens_alignmentInput, tokensOf_transcriptText, ← textTokens_ne_nil]
  by_cases h : textTokens segments = []
  · rw [if_pos h, if_pos h, or_iff_right (not_not.mpr h)]
  · rw [if_neg h, if_neg h]
    exact iff_of_true rfl (.inl h)

/-- Of a caller's transcript they do iff a segment has some, or there are no segments, or the words
have none either. -/
theorem handedTokens_labelWindows (audio : Audio ℚ) (words : List (Word ℚ))
    (segments : List (Segment ℚ)) :
    handedTokens (alignedWindows audio (labelWindows audio words segments) "") =
        tokensOf (transcriptText segments words) ↔
      (∃ segment ∈ segments, hasText segment = true) ∨ segments = [] ∨
        ∀ word ∈ words, tokensOf word.word = [] := by
  -- the fallback is blank, so the windows hold what the segments do
  have hself (l : List Text) : (if l = [] then tokensOf "" else l) = l := by
    split
    · rename_i hnil
      rw [hnil]
      rfl
    · rfl
  rw [alignedWindows, handedTokens_alignmentTranscript, hself, textTokens_labelWindows,
    tokensOf_transcriptText, ← textTokens_ne_nil, ← tokensOf_callerText_eq_nil]
  by_cases hnone : segments = []
  · subst hnone
    exact iff_of_true rfl (.inr (.inl rfl))
  · rw [if_neg hnone]
    by_cases h : textTokens segments = []
    · rw [if_pos h, h, or_iff_right (not_not.mpr rfl), or_iff_right hnone]
      exact eq_comm
    · rw [if_neg h]
      exact iff_of_true rfl (.inl h)

/-- **The whole transcript reaches the aligner** iff a segment has text, or else what is handed over
instead of the segments holds the words' text. -/
theorem whole_text (engine : Engine) (audio : Audio ℚ) :
    (∀ response payload words segments duration language model diarize speakers includeSpeakerReview,
      requestTranscription engine.casts response = .ok payload →
      parseVerboseJson engine.casts payload = .ok (words, segments) →
      payloadDuration engine.casts payload = .ok duration →
      ∃ windows,
        Hands engine windows language (fun engine => HybridEngine.transcribe engine audio response
          language model diarize speakers includeSpeakerReview) ∧
        windows = alignedWindows audio (HybridEngine.alignSegments duration words segments)
          (payloadText engine.casts payload) ∧
        (handedTokens windows = tokensOf (transcriptText segments words) ↔
          (∃ segment ∈ segments, hasText segment = true) ∨
            tokensOf (payloadText engine.casts payload) = tokensOf (callerText words))) ∧
    ∀ words segments language model speakers includeSpeakerReview,
      trustedWords engine.diarizePreferAlign (callerWords words segments) = [] →
      ∃ windows,
        Hands engine windows language (fun engine => engine.labelSpeakers audio words segments
          language model speakers includeSpeakerReview) ∧
        windows = alignedWindows audio
          (labelWindows audio (callerWords words segments) segments) "" ∧
        (handedTokens windows = tokensOf (transcriptText segments (callerWords words segments)) ↔
          (∃ segment ∈ segments, hasText segment = true) ∨ segments = [] ∨
            ∀ word ∈ callerWords words segments, tokensOf word.word = []) :=
  ⟨fun _ payload words segments duration language model diarize speakers review hpayload hparse
      hduration =>
    ⟨_, HybridEngine.transcribe_hands engine audio language model diarize speakers review hpayload
      hparse hduration, rfl, handedTokens_payload payload audio duration words segments⟩,
   fun words segments language model speakers review haligns =>
    ⟨_, labelSpeakers_hands engine audio language model speakers review haligns, rfl,
      handedTokens_labelWindows audio (callerWords words segments) segments⟩⟩

/-- The word both transcripts below consist of. -/
def hello : Word ℚ := ⟨"hej", 0, 1 / 2, none⟩

/-- Words without a `text` beside them. -/
def helloPayload : Payload :=
  [("words", .arr [.obj [("word", .str "hej"), ("start", .num (.finite 0)),
    ("end", .num (.finite (1 / 2)))]])]

def blankSegment : Segment ℚ := { start := 0, stop := 1, text := "" }

/-- The caller's transcript as a request: it is accepted. -/
def helloRequest : RequestFields String where
  task := .diarize
  words := some [⟨"hej", .finite 0, .finite (1 / 2), none⟩]
  segments := some [{ start := .finite 0, stop := .finite 1, text := "" }]

/-- An engine whose aligner tells what it was handed. -/
def telling : Engine where
  casts := .plain
  letters := .latin
  diarizer := { diarize := fun _ => .ok [] }
  align windows _ := .error (pyJoin "|" (windows.map fun window => s!"<{window.text}>"))

theorem hello_run :
    parseVerboseJson .plain helloPayload = .ok ([hello], []) ∧
      payloadDuration .plain helloPayload = .ok 0 ∧
      trustedWords true (callerWords [hello] [blankSegment]) = [] := by
  decide +kernel

/-- Both ways, the aligner gets one window without text. -/
theorem lost_text :
    HybridEngine.transcribe telling ⟨some 1, some 1⟩ (.obj helloPayload) "sv" "kb-whisper" false none
      false = .error "<>" ∧
    (∃ words segments, parseVerboseJson .plain helloPayload = .ok (words, segments) ∧
      alignedWindows ⟨some 1, some 1⟩ (HybridEngine.alignSegments 0 words segments)
          (payloadText .plain helloPayload) = [⟨0, 1, ""⟩] ∧
      handedTokens (alignedWindows ⟨some 1, some 1⟩ (HybridEngine.alignSegments 0 words segments)
          (payloadText .plain helloPayload)) ≠ tokensOf (transcriptText segments words)) ∧
    helloRequest.validateTask = none ∧
    telling.labelSpeakers ⟨some 1, some 1⟩ [hello] [blankSegment] "sv" "external" none false =
      .error "<>" ∧
    alignedWindows ⟨some 1, some 1⟩
        (labelWindows ⟨some 1, some 1⟩ (callerWords [hello] [blankSegment]) [blankSegment]) "" =
      [⟨0, 1, ""⟩] ∧
    handedTokens (alignedWindows ⟨some 1, some 1⟩
        (labelWindows ⟨some 1, some 1⟩ (callerWords [hello] [blankSegment]) [blankSegment]) "") ≠
      tokensOf (transcriptText [blankSegment] (callerWords [hello] [blankSegment])) :=
  ⟨by decide +kernel, ⟨[hello], [], hello_run.1, by decide +kernel, by decide +kernel⟩,
    by decide +kernel, by decide +kernel, by decide +kernel, by decide +kernel⟩

/-- Neither run hands over what the word says. -/
theorem whole_text_hello :
    (∃ windows,
      Hands telling windows "sv" (fun engine => HybridEngine.transcribe engine ⟨some 1, some 1⟩
        (.obj helloPayload) "sv" "kb-whisper" false none false) ∧
      handedTokens windows ≠ tokensOf (transcriptText [] [hello])) ∧
    ∃ windows,
      Hands telling windows "sv" (fun engine => engine.labelSpeakers ⟨some 1, some 1⟩ [hello]
        [blankSegment] "sv" "external" none false) ∧
      handedTokens windows ≠ tokensOf (transcriptText [blankSegment] [hello]) := by
  have ⟨hparse, hduration, haligns⟩ := hello_run
  obtain ⟨windows, hhands, -, hiff⟩ := (whole_text telling ⟨some 1, some 1⟩).1 (.obj helloPayload)
    helloPayload [hello] [] 0 "sv" "kb-whisper" false none false rfl hparse hduration
  obtain ⟨windows', hhands', -, hiff'⟩ := (whole_text telling ⟨some 1, some 1⟩).2 [hello]
    [blankSegment] "sv" "external" none false haligns
  exact ⟨⟨windows, hhands, mt hiff.mp (by decide +kernel)⟩,
    windows', hhands', mt hiff'.mp (by decide +kernel)⟩

end Vemsa.Pipeline
