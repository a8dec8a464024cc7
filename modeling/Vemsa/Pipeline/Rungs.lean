import Vemsa.Pipeline.Annotation
import Vemsa.Pipeline.WhisperApi

/-!
# Pipeline — Rungs

What the reported `alignment` says about the words behind a result.

* `provider_words` should mean that the timeline of the words was plausible.  `label_speakers`
  keeps to it; `transcribe` asks only where it has segments to fall back on, so words that come
  alone pass unasked (`plausibility_gate`, `compressed_words_pass`).
* `segment_split` and `segment_only` should mean that there are no words.  A dropped list leaves its
  copies in the segments, and they go only where a segment is cut (`rung_honesty`,
  `dropped_words_return`).
-/

namespace Vemsa.Pipeline
open Vemsa.Support Vemsa.Jobs

/-! ### Reading a payload -/

section Reading

variable {τ : Type} [Seconds τ] {casts : Casts τ} {payload : Payload} {words : List (Word τ)}
  {segments : List (Segment τ)}

/-- A segment of a payload holds exactly the words whose midpoint lies in it. -/
theorem parseSegment_words {item : Json} {segment : Segment τ}
    (h : parseSegment casts words item = some segment) :
    segment.words = words.filter fun word => midpointIn word segment := by
  cases item with
  | obj fields =>
      simp only [parseSegment, Option.bind_eq_bind, Option.bind_eq_some_iff] at h
      obtain ⟨_, -, start, -, _, -, stop, -, text, -, h⟩ := h
      cases Option.some.inj h
      rfl
  | _ => cases h

theorem mem_of_mapM_eq_some {α β : Type} {f : α → Option β} {l : List α} {out : List β}
    (h : l.mapM f = some out) {b : β} (hb : b ∈ out) : ∃ a ∈ l, f a = some b := by
  induction l generalizing out with
  | nil =>
      cases Option.some.inj h
      cases hb
  | cons a l ih =>
      simp only [List.mapM_cons, Option.bind_eq_bind, Option.bind_eq_some_iff] at h
      obtain ⟨b', ha, out', hout', h⟩ := h
      cases Option.some.inj h
      rcases List.mem_cons.mp hb with rfl | hb
      · exact ⟨a, List.mem_cons_self, ha⟩
      · obtain ⟨c, hc, hfc⟩ := ih hout' hb
        exact ⟨c, List.mem_cons_of_mem a hc, hfc⟩

theorem parseVerboseJson_words (h : parseVerboseJson casts payload = .ok (words, segments)) :
    ∀ segment ∈ segments, segment.words = words.filter fun word => midpointIn word segment := by
  unfold parseVerboseJson at h
  cases hlists : parseLists casts payload with
  | none => rw [hlists] at h; cases h
  | some lists =>
      rw [hlists] at h
      dsimp only at h
      split at h
      · cases h
      · cases Except.ok.inj h
        simp only [parseLists, Option.bind_eq_bind, Option.bind_eq_some_iff] at hlists
        obtain ⟨_, -, read, -, items, -, unsorted, hunsorted, heq⟩ := hlists
        cases Option.some.inj heq
        intro segment hsegment
        have hmem := (stablySorted_sortedBy Segment.start unsorted).perm.mem_iff.mp hsegment
        obtain ⟨item, -, hitem⟩ := mem_of_mapM_eq_some hunsorted hmem
        exact parseSegment_words hitem

theorem parseVerboseJson_ne_nil (h : parseVerboseJson casts payload = .ok (words, segments)) :
    words = [] → segments ≠ [] := by
  unfold parseVerboseJson at h
  split at h
  · cases h
  · split at h
    · cases h
    · rename_i hnone
      cases Except.ok.inj h
      exact fun hwords hsegments => hnone ⟨hwords, hsegments⟩

theorem buildResult_eq_ok {model language : String} {alignment : Option Jobs.Alignment}
    {result : TranscriptionResult τ}
    (h : buildResult casts payload segments model language alignment = .ok result) :
    result.segments = segments ∧ result.alignment = alignment := by
  obtain ⟨duration, -, h⟩ := except_bind_eq_ok.mp h
  cases Except.ok.inj h
  exact ⟨rfl, rfl⟩

end Reading

/-! ### What a review leaves -/

@[simp]
theorem applySpeakerReview_alignment (result : TranscriptionResult ℚ)
    (review : Option SpeakerReview) :
    (applySpeakerReview result review).alignment = result.alignment := by
  cases review <;> rfl

theorem words_applySpeakerReview (result : TranscriptionResult ℚ) (review : Option SpeakerReview) :
    (applySpeakerReview result review).segments.flatMap Segment.words =
      result.segments.flatMap Segment.words := by
  cases review with
  | none => rfl
  | some review =>
      have h := congrArg (List.map Prod.fst) (spoken_applySpeakerReview result review)
      simpa only [List.map_flatMap, List.map_map, Function.comp_def, List.map_id'] using h

theorem wordless_iff {segments : List (Segment ℚ)} :
    Wordless segments ↔ segments.flatMap Segment.words = [] :=
  List.flatMap_eq_nil_iff.symm

/-! ### The runs -/

namespace OpenAIWhisperEngine

variable {engine : Engine} {response : Json} {payload : Payload} {words : List (Word ℚ)}
  {segments : List (Segment ℚ)} {language model : String} {diarize : Bool}
  {speakers : Option SpeakerBounds} {includeSpeakerReview : Bool} {result : TranscriptionResult ℚ}

/-- What a run that returns made its result of. -/
theorem transcribe_eq_ok (hpayload : requestTranscription engine.casts response = .ok payload)
    (hparse : parseVerboseJson engine.casts payload = .ok (words, segments))
    (h : transcribe engine response language model diarize speakers includeSpeakerReview =
      .ok result) :
    ∃ turns review labelled,
      engine.turnsAndReview diarize speakers includeSpeakerReview = .ok (turns, review) ∧
      resolveSegments engine.letters engine.tuning (gatedWords words segments) segments turns =
        .ok labelled ∧
      result.segments.flatMap Segment.words = labelled.flatMap Segment.words ∧
      result.alignment = some (if gatedWords words segments ≠ [] then .providerWords
        else segmentMergeAlignment segments labelled) := by
  simp only [transcribe, except_bind_eq_ok] at h
  obtain ⟨_, hpayload', _, hparse', ⟨turns, review⟩, hturns, labelled, hlabelled, base, hbase, h⟩ := h
  cases Except.ok.inj (hpayload.symm.trans hpayload')
  cases Except.ok.inj (hparse.symm.trans hparse')
  cases Except.ok.inj h
  obtain ⟨hsegments, halignment⟩ := buildResult_eq_ok hbase
  refine ⟨turns, review, labelled, hturns, hlabelled, ?_, ?_⟩
  · rw [words_applySpeakerReview, hsegments]
  · rw [applySpeakerReview_alignment, halignment]

theorem gatedWords_eq_nil : gatedWords words segments = [] ↔
    words = [] ∨ (segments ≠ [] ∧ wordsPlausible words = false) := by
  unfold gatedWords
  split
  · rename_i h
    exact iff_of_true rfl (.inr ⟨h.2.1, Bool.eq_false_of_not_eq_true h.2.2⟩)
  · rename_i h
    refine ⟨.inl, fun hor => hor.elim id fun ⟨hsegments, hwords⟩ => ?_⟩
    by_contra hne
    exact h ⟨hne, hsegments, by simp [hwords]⟩

/-- The rung says whether any words were left. -/
theorem rung_cases {words : List (Word ℚ)} {inputs outputs : List (Segment ℚ)}
    {alignment : Option Jobs.Alignment}
    (h : alignment = some (if words ≠ [] then .providerWords
      else segmentMergeAlignment inputs outputs)) :
    (words ≠ [] ∧ alignment = some .providerWords) ∨
      (words = [] ∧ (alignment = some .segmentSplit ∨ alignment = some .segmentOnly)) := by
  by_cases hwords : words = []
  · rw [if_neg (not_not.mpr hwords), segmentMergeAlignment] at h
    refine .inr ⟨hwords, ?_⟩
    split at h
    · exact .inl h
    · exact .inr h
  · rw [if_pos hwords] at h
    exact .inl ⟨hwords, h⟩

/-- The words kept are plausible wherever they are reported, unless they came alone and are not. -/
theorem gatedWords_plausible_iff {outputs : List (Segment ℚ)} {alignment : Option Jobs.Alignment}
    (h : alignment = some (if gatedWords words segments ≠ [] then .providerWords
      else segmentMergeAlignment segments outputs)) :
    (alignment = some .providerWords → wordsPlausible (gatedWords words segments) = true) ↔
      segments ≠ [] ∨ wordsPlausible words = true := by
  by_cases hlet : segments ≠ [] ∨ wordsPlausible words = true
  · refine iff_of_true (fun _ => ?_) hlet
    unfold gatedWords
    split
    · rfl
    · rename_i hpass
      by_contra hcompressed
      have hsegments := hlet.resolve_right hcompressed
      exact hpass ⟨fun hnil => hcompressed (hnil ▸ rfl), hsegments, hcompressed⟩
  · rw [not_or, not_not] at hlet
    obtain ⟨hnone, hcompressed⟩ := hlet
    have hall : gatedWords words segments = words := if_neg fun hgate => hgate.2.1 hnone
    have hne : words ≠ [] := fun hnil => hcompressed (hnil ▸ rfl)
    rw [hall] at h ⊢
    rcases rung_cases h with ⟨-, hprovider⟩ | ⟨hnil, -⟩
    · exact iff_of_false (fun hlaw => hcompressed (hlaw hprovider)) (by simp [hnone, hcompressed])
    · exact absurd hnil hne

end OpenAIWhisperEngine

/-- What `label_speakers` merges under `provider_words` are the caller's words, and plausible. -/
theorem mergedWords_provider {preferAlignment : Bool} {aligner : Option SegmentAligner}
    {audio : Audio ℚ} {words used : List (Word ℚ)} {segments : List (Segment ℚ)} {language : String}
    (h : mergedWords preferAlignment aligner audio words segments language =
      .ok (used, .providerWords)) :
    used = callerWords words segments ∧ wordsPlausible used = true := by
  unfold mergedWords at h
  extract_lets caller trusted at h
  split at h
  · rename_i htrusted
    obtain rfl : trusted = used := congrArg Prod.fst (Except.ok.inj h)
    -- nothing was discarded or set aside, or no words would be trusted
    have hkept : wordsDiscarded caller = false := by
      by_contra hdiscarded
      exact htrusted (by simp [trusted, trustedWords, hdiscarded])
    have hused : trusted = caller := by
      by_contra hne
      refine htrusted ?_
      simp only [trusted, trustedWords, hkept, Bool.false_eq_true, if_false] at hne ⊢
      split at hne
      · rename_i hprefer
        rw [if_pos hprefer]
      · exact absurd rfl hne
    refine ⟨hused, ?_⟩
    rw [hused]
    by_contra hcompressed
    refine Bool.false_ne_true (hkept.symm.trans ?_)
    exact decide_eq_true ⟨hused ▸ htrusted, hcompressed⟩
  · cases aligner with
    | none => cases h
    | some aligner =>
        obtain ⟨aligned, -, h⟩ := except_bind_eq_ok.mp h
        split at h <;> cases h

/-- What a run of `label_speakers` that reports `provider_words` made its result of. -/
theorem labelSpeakers_provider {L : Letters} {tuning : AttributionKnobs ℚ} {preferAlignment : Bool}
    {diarizer : SpeakerDiarizer} {aligner : Option SegmentAligner} {audio : Audio ℚ}
    {words : List (Word ℚ)} {segments : List (Segment ℚ)} {language model : String}
    {speakers : Option SpeakerBounds} {includeSpeakerReview : Bool} {result : TranscriptionResult ℚ}
    (h : labelSpeakers L tuning preferAlignment diarizer aligner audio words segments language model
      speakers includeSpeakerReview = .ok result)
    (hrung : result.alignment = some .providerWords) :
    ∃ used turns labelled, mergedWords preferAlignment aligner audio words segments language =
        .ok (used, .providerWords) ∧
      resolveSegments L tuning used (plainSegments segments) (some turns) = .ok labelled ∧
      result.segments.flatMap Segment.words = labelled.flatMap Segment.words := by
  simp only [labelSpeakers, except_bind_eq_ok] at h
  obtain ⟨⟨used, alignment⟩, hmerged, ⟨turns, review⟩, -, labelled, hlabelled, h⟩ := h
  cases Except.ok.inj h
  rw [applySpeakerReview_alignment] at hrung
  obtain rfl : alignment = .providerWords := Option.some.inj hrung
  exact ⟨used, _, labelled, hmerged, hlabelled, words_applySpeakerReview _ _⟩

/-! ### Provider words -/

/-- **The plausibility gate**: `label_speakers` builds a result under `provider_words` of plausible
words only; `transcribe` does so iff the payload has segments to fall back on, or its words are
plausible. -/
theorem plausibility_gate (engine : Engine) :
    (∀ preferAlignment aligner audio words segments language model speakers includeSpeakerReview
      result,
      labelSpeakers engine.letters engine.tuning preferAlignment engine.diarizer aligner audio words
        segments language model speakers includeSpeakerReview = .ok result →
      result.alignment = some .providerWords →
      ∃ used turns labelled, mergedWords preferAlignment aligner audio words segments language =
          .ok (used, .providerWords) ∧
        resolveSegments engine.letters engine.tuning used (plainSegments segments) (some turns) =
          .ok labelled ∧
        result.segments.flatMap Segment.words = labelled.flatMap Segment.words ∧
        used = callerWords words segments ∧ wordsPlausible used = true) ∧
    ∀ response payload words segments language model diarize speakers includeSpeakerReview result,
      requestTranscription engine.casts response = .ok payload →
      parseVerboseJson engine.casts payload = .ok (words, segments) →
      OpenAIWhisperEngine.transcribe engine response language model diarize speakers
        includeSpeakerReview = .ok result →
      ∃ used turns review labelled, used = OpenAIWhisperEngine.gatedWords words segments ∧
        engine.turnsAndReview diarize speakers includeSpeakerReview = .ok (turns, review) ∧
        resolveSegments engine.letters engine.tuning used segments turns = .ok labelled ∧
        result.segments.flatMap Segment.words = labelled.flatMap Segment.words ∧
        result.alignment = some (if used ≠ [] then .providerWords
          else segmentMergeAlignment segments labelled) ∧
        ((result.alignment = some .providerWords → wordsPlausible used = true) ↔
          segments ≠ [] ∨ wordsPlausible words = true) := by
  refine ⟨fun preferAlignment aligner audio words segments language model speakers review result h
    hrung => ?_, fun response payload words segments language model diarize speakers review result
    hpayload hparse h => ?_⟩
  · obtain ⟨used, turns, labelled, hused, hlabelled, hwords⟩ := labelSpeakers_provider h hrung
    exact ⟨used, turns, labelled, hused, hlabelled, hwords, mergedWords_provider hused⟩
  · obtain ⟨turns, review, labelled, hturns, hlabelled, hwords, hrung⟩ :=
      OpenAIWhisperEngine.transcribe_eq_ok hpayload hparse h
    exact ⟨_, turns, review, labelled, rfl, hturns, hlabelled, hwords, hrung,
      OpenAIWhisperEngine.gatedWords_plausible_iff hrung⟩

/-- A payload of five words in half a second. -/
def fastWords : List (Word ℚ) :=
  [0, 1 / 10, 2 / 10, 3 / 10, 4 / 10].map fun start => ⟨"ja", start, start + 1 / 10, none⟩

def fastItems : Json :=
  .arr (fastWords.map fun word => .obj [("word", .str word.word), ("start", .num (.finite word.start)),
    ("end", .num (.finite word.stop))])

/-- One voice, all along. -/
def oneVoice : Engine where
  casts := .plain
  letters := .latin
  diarizer := { diarize := fun _ => .ok [⟨0, 1, "SPEAKER_00"⟩] }
  align _ _ := .error "easyaligner is not installed"

/-- The line the words that come alone end up in. -/
def fastLine : TranscriptionResult ℚ where
  language := "sv"
  durationSeconds := 1 / 2
  model := "kb-whisper"
  text := "[00:00:00 - 00:00:00] SPEAKER_00: ja ja ja ja ja"
  segments := [⟨0, 1 / 2, some "SPEAKER_00", "ja ja ja ja ja", fastWords, none, []⟩]
  alignment := some .providerWords

theorem fast_words_run :
    parseVerboseJson .plain [("words", fastItems)] = .ok (fastWords, []) ∧
      wordsPlausible fastWords = false ∧
      OpenAIWhisperEngine.transcribe oneVoice (.obj [("words", fastItems)]) "sv" "kb-whisper" true
        none false = .ok fastLine := by
  decide +kernel

theorem compressed_words_pass :
    ∃ result words segments,
      parseVerboseJson .plain [("words", fastItems)] = .ok (words, segments) ∧
      OpenAIWhisperEngine.transcribe oneVoice (.obj [("words", fastItems)]) "sv" "kb-whisper" true
        none false = .ok result ∧
      result.alignment = some .providerWords ∧
      result.segments.flatMap Segment.words = OpenAIWhisperEngine.gatedWords words segments ∧
      wordsPlausible (OpenAIWhisperEngine.gatedWords words segments) = false :=
  have ⟨hparse, hcompressed, hrun⟩ := fast_words_run
  ⟨fastLine, fastWords, [], hparse, hrun, rfl, rfl, hcompressed⟩

/-- A caller's single word is merged as it is; a provider's five are not plausible, and their line is
built from them. -/
theorem plausibility_gate_fast_words :
    (∃ used turns labelled, mergedWords false none ⟨none, none⟩ (fastWords.take 1) [] "sv" =
        .ok (used, .providerWords) ∧
      resolveSegments oneVoice.letters oneVoice.tuning used (plainSegments []) (some turns) =
        .ok labelled ∧
      fastWords.take 1 = labelled.flatMap Segment.words ∧ wordsPlausible used = true) ∧
    ∃ used turns labelled, used = OpenAIWhisperEngine.gatedWords fastWords [] ∧
      resolveSegments oneVoice.letters oneVoice.tuning used [] turns = .ok labelled ∧
      fastWords = labelled.flatMap Segment.words ∧
      ¬ (fastLine.alignment = some .providerWords → wordsPlausible used = true) := by
  constructor
  · obtain ⟨used, turns, labelled, hused, hlabelled, hwords, -, hplausible⟩ :=
      (plausibility_gate oneVoice).1 false none ⟨none, none⟩ (fastWords.take 1) [] "sv" "external"
        none false
        { language := "sv", durationSeconds := 1 / 10, model := "external"
          text := "[00:00:00 - 00:00:00] SPEAKER_00: ja"
          segments := [⟨0, 1 / 10, some "SPEAKER_00", "ja", fastWords.take 1, none, []⟩]
          alignment := some .providerWords }
        (by decide +kernel) rfl
    exact ⟨used, turns, labelled, hused, hlabelled, hwords, hplausible⟩
  · obtain ⟨used, turns, -, labelled, hused, -, hlabelled, hwords, -, hlaw⟩ :=
      (plausibility_gate oneVoice).2 (.obj [("words", fastItems)]) [("words", fastItems)] fastWords []
        "sv" "kb-whisper" true none false fastLine rfl fast_words_run.1 fast_words_run.2.2
    refine ⟨used, turns, labelled, hused, hlabelled, hwords, mt hlaw.mp ?_⟩
    simp [fast_words_run.2.1]

/-! ### Segment rungs -/

/-- **Segment rungs**: no words come back iff the words were plausible, or every segment one of
them falls into is cut at the turns. -/
theorem rung_honesty (engine : Engine) {response : Json} {payload : Payload}
    {words : List (Word ℚ)} {segments : List (Segment ℚ)} {language model : String} {diarize : Bool}
    {speakers : Option SpeakerBounds} {includeSpeakerReview : Bool}
    {turns : Option (List (Turn ℚ))} {review : Option SpeakerReview}
    {result : TranscriptionResult ℚ}
    (hpayload : requestTranscription engine.casts response = .ok payload)
    (hparse : parseVerboseJson engine.casts payload = .ok (words, segments))
    (hturns : engine.turnsAndReview diarize speakers includeSpeakerReview = .ok (turns, review))
    (h : OpenAIWhisperEngine.transcribe engine response language model diarize speakers
      includeSpeakerReview = .ok result) :
    (result.alignment = some .segmentSplit ∨ result.alignment = some .segmentOnly →
        ∀ segment ∈ result.segments, segment.words = []) ↔
      wordsPlausible words = true ∨ ∀ segment ∈ segments,
        (∀ word ∈ words, midpointIn word segment = false) ∨
          ∃ heard ∈ turns, heard ≠ [] ∧ IsCut {} (sortedBy Turn.start heard) segment := by
  obtain ⟨turns', review', labelled, hturns', hlabelled, hwords, hrung⟩ :=
    OpenAIWhisperEngine.transcribe_eq_ok hpayload hparse h
  cases Except.ok.inj (hturns.symm.trans hturns')
  have hnested : ∀ segment ∈ segments, segment.words = [] ↔
      ∀ word ∈ words, midpointIn word segment = false := fun segment hsegment => by
    rw [parseVerboseJson_words hparse segment hsegment, List.filter_eq_nil_iff]
    simp only [Bool.not_eq_true]
  have hlaw : (∀ segment ∈ result.segments, segment.words = []) ↔ Wordless labelled := by
    rw [wordless_iff, ← hwords]
    exact wordless_iff
  rcases OpenAIWhisperEngine.rung_cases hrung with ⟨hne, hprovider⟩ | ⟨hnil, hsegment⟩
  · -- the words passed, so the law asks nothing
    rw [hprovider]
    refine iff_of_true (by simp) ?_
    by_contra hcon
    rw [not_or] at hcon
    refine hne (OpenAIWhisperEngine.gatedWords_eq_nil.mpr (.inr ⟨fun hsegments => hcon.2 ?_,
      Bool.eq_false_of_not_eq_true hcon.1⟩))
    rw [hsegments]
    exact List.forall_mem_nil _
  · rw [hnil] at hlabelled
    rw [imp_iff_right hsegment, hlaw, resolveSegments_wordless hlabelled]
    by_cases hplausible : wordsPlausible words = true
    · -- nothing was dropped: there were no words to nest
      have hnone : words = [] := (OpenAIWhisperEngine.gatedWords_eq_nil.mp hnil).resolve_right
        fun hdropped => Bool.false_ne_true (hdropped.2.symm.trans hplausible)
      refine iff_of_true (fun segment hmem => .inl ((hnested segment hmem).mpr ?_)) (.inl hplausible)
      rw [hnone]
      exact List.forall_mem_nil _
    · rw [or_iff_right hplausible]
      exact forall₂_congr fun segment hmem => or_congr_left (hnested segment hmem)

/-- The same words beside one segment. -/
def fastPayload : Payload :=
  [("words", fastItems), ("segments", .arr [.obj [("start", .num (.finite 0)),
    ("end", .num (.finite 1)), ("text", .str "ja ja ja ja ja")]])]

def fastSegment : Segment ℚ where
  start := 0
  stop := 1
  text := "ja ja ja ja ja"
  words := fastWords

/-- The segment, labelled as a whole. -/
def fastWhole : TranscriptionResult ℚ where
  language := "sv"
  durationSeconds := 1
  model := "kb-whisper"
  text := "[00:00:00 - 00:00:01] SPEAKER_00: ja ja ja ja ja"
  segments := [{ fastSegment with speaker := some "SPEAKER_00" }]
  alignment := some .segmentOnly

theorem fastPayload_run :
    parseVerboseJson .plain fastPayload = .ok (fastWords, [fastSegment]) ∧
      OpenAIWhisperEngine.transcribe oneVoice (.obj fastPayload) "sv" "kb-whisper" true none false =
        .ok fastWhole := by
  decide +kernel

theorem dropped_words_return :
    ∃ result words segments,
      parseVerboseJson .plain fastPayload = .ok (words, segments) ∧
      OpenAIWhisperEngine.transcribe oneVoice (.obj fastPayload) "sv" "kb-whisper" true none false =
        .ok result ∧
      wordsPlausible words = false ∧ result.alignment = some .segmentOnly ∧
      ¬ ∀ segment ∈ result.segments, segment.words = [] :=
  ⟨fastWhole, fastWords, [fastSegment], fastPayload_run.1, fastPayload_run.2, fast_words_run.2.1, rfl,
    fun hnone => List.cons_ne_nil _ _ (hnone _ List.mem_cons_self)⟩

theorem rung_honesty_fast_words :
    (fastWhole.alignment = some .segmentSplit ∨ fastWhole.alignment = some .segmentOnly →
        ∀ segment ∈ fastWhole.segments, segment.words = []) ↔
      wordsPlausible fastWords = true ∨ ∀ segment ∈ [fastSegment],
        (∀ word ∈ fastWords, midpointIn word segment = false) ∨
          ∃ heard ∈ some [⟨0, 1, "SPEAKER_00"⟩], heard ≠ [] ∧
            IsCut {} (sortedBy Turn.start heard) segment :=
  have hpayload : requestTranscription oneVoice.casts (.obj fastPayload) = .ok fastPayload := rfl
  have hturns : oneVoice.turnsAndReview true none false =
    .ok (some [⟨0, 1, "SPEAKER_00"⟩], none) := rfl
  rung_honesty oneVoice hpayload fastPayload_run.1 hturns fastPayload_run.2

end Vemsa.Pipeline
