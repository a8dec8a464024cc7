import Vemsa.Pipeline.AlignTask
import Vemsa.Pipeline.AlignerOutput
import Vemsa.Pipeline.AssignSpeakers
import Vemsa.Pipeline.Hybrid
import Vemsa.Pipeline.Rungs
import Vemsa.Pipeline.SegmentSplit

/-!
# Pipeline — Engines

The four engines, and the four calls a worker makes of them.  They share three of the calls, and
differ in how a transcript is made.

* `engine_conserves`: whichever engine answered whichever call, the words of its result are those of
  the source its rung names, each of them once, and no segment is timed by anything but its words.
  Only a provider's segments are passed on without their words being looked at.
-/

namespace Vemsa.Pipeline
open Vemsa.Support Vemsa.Jobs

/-! ### The calls -/

/-- `timestamp_transcript` -/
def timestampTranscript (aligner : SegmentAligner) (tuning : AttributionKnobs ℚ)
    (decoded : Option ℚ) (segments : List (Segment ℚ)) (language model : String) :
    Except String (TranscriptionResult ℚ) := do
  let duration := audioDuration decoded (lastEnd segments)
  let windows := alignmentInput segments true duration
  let words ← aligner windows language
  if words = [] then
    .error "forced alignment produced no words for the supplied transcript"
  let lines := segmentsWithoutSpeakers tuning words
  -- there are words, so there is a last line
  let lastStop := (lines.getLast?.map Segment.stop).getD 0
  return {
    language := if language ≠ "auto" then language else "unknown"
    durationSeconds := max duration lastStop
    model
    text := renderText lines
    segments := lines
    alignment := some .forced }

/-- A call of `TranscriptionEngine`.  The vocabulary only reaches the provider. -/
inductive Call where
  | transcribe (language model : String) (diarize : Bool) (speakers : Option SpeakerBounds)
      (includeSpeakerReview : Bool)
  | labelSpeakers (words : List (Word ℚ)) (segments : List (Segment ℚ)) (language model : String)
      (speakers : Option SpeakerBounds) (includeSpeakerReview : Bool)
  | alignTranscript (segments : List (Segment ℚ)) (language model : String)
  | timestampTranscript (segments : List (Segment ℚ)) (language model : String)

/-- The engines that hear audio. -/
inductive Tier where
  | local_ | hybrid | remote | diarize
deriving DecidableEq

/-- An engine on one audio file: what the alignment library, the transcription pipeline and the
provider answer there is given. -/
structure Deployment extends Engine where
  unicode : Unicode
  audio : Audio ℚ
  /-- `easytranscriber`, by language and model -/
  transcription : Option String → String → Except String (List (Shape ℚ))
  repr : Shape ℚ → String
  response : Json

namespace Deployment

variable (d : Deployment)

/-- `EasyTranscriberEngine.transcribe` -/
def transcribeLocally (language model : String) (diarize : Bool) (speakers : Option SpeakerBounds)
    (includeSpeakerReview : Bool) : Except String (TranscriptionResult ℚ) := do
  let lang := if language = "auto" then none else some language
  let words ← wordsFromAlignments d.repr (← d.transcription lang model)
  let duration := audioDuration d.audio.decoded ((words.getLast?.map Word.stop).getD 0)
  let (turns, review) ← d.turnsAndReview diarize speakers includeSpeakerReview
  let segments ←
    match turns with
    | some turns => assignSpeakers d.letters d.tuning words turns
    | none => pure (segmentsWithoutSpeakers d.tuning words)
  return applySpeakerReview
    { language := (lang.filter fun lang => !lang.isEmpty).getD "auto"
      durationSeconds := duration
      model
      text := renderText segments
      segments
      alignment := some .forced }
    review

/-- `transcribe` of the tiers -/
def transcribe (tier : Tier) (language model : String) (diarize : Bool)
    (speakers : Option SpeakerBounds) (includeSpeakerReview : Bool) :
    Except String (TranscriptionResult ℚ) :=
  match tier with
  | .local_ => d.transcribeLocally language model diarize speakers includeSpeakerReview
  | .hybrid => HybridEngine.transcribe d.toEngine d.audio d.response language model diarize speakers
      includeSpeakerReview
  | .remote => OpenAIWhisperEngine.transcribe d.toEngine d.response language model diarize speakers
      includeSpeakerReview
  | .diarize => .error "this deployment only labels speakers (VEMSA_ENGINE=diarize)"

/-- An engine at a call. -/
def answer (tier : Tier) : Call → Except String (TranscriptionResult ℚ)
  | .transcribe language model diarize speakers includeSpeakerReview =>
    d.transcribe tier language model diarize speakers includeSpeakerReview
  | .labelSpeakers words segments language model speakers includeSpeakerReview =>
    d.toEngine.labelSpeakers d.audio words segments language model speakers includeSpeakerReview
  | .alignTranscript segments language model =>
    (Pipeline.alignTranscript d.unicode segments (d.segmentAligner d.audio) language model
      d.tuning.toAttributionTuning d.audio.decoded).mapError AlignError.message
  | .timestampTranscript segments language model =>
    Pipeline.timestampTranscript (d.segmentAligner d.audio) d.tuning d.audio.decoded segments
      language model

end Deployment

/-! ### Segments timed by their words -/

/-- The segment begins with its first word, and ends with one of its words, not before its last. -/
structure TimedByWords (segment : Segment ℚ) : Prop where
  ne_nil : segment.words ≠ []
  start : ∀ first ∈ segment.words.head?, segment.start = first.start
  stop : ∀ last ∈ segment.words.getLast?, last.stop ≤ segment.stop
  ends : ∃ word ∈ segment.words, word.stop = segment.stop

theorem Lined.timedByWords {segment : Segment ℚ} (h : Lined segment) : TimedByWords segment where
  ne_nil := h.ne_nil
  start := h.start
  stop last hlast := (h.stop last hlast).ge
  ends := ⟨segment.words.getLast h.ne_nil, List.getLast_mem h.ne_nil,
    (h.stop _ (List.getLast?_eq_some_getLast h.ne_nil)).symm⟩

theorem TimedByWords.annotate {segment : Segment ℚ} (h : TimedByWords segment) (ids : List String) :
    TimedByWords (annotate segment ids) where
  ne_nil := h.ne_nil
  start := h.start
  stop := h.stop
  ends := h.ends

/-- A segment that spans its words, which come by start. -/
theorem timedByWords_span {segment : Segment ℚ} (hne : segment.words ≠ [])
    (hsorted : segment.words.Pairwise fun a b => a.start ≤ b.start)
    (hstart : segment.start = (segment.words.map Word.start).min?.getD 0)
    (hstop : segment.stop = (segment.words.map Word.stop).max?.getD 0) : TimedByWords segment := by
  obtain ⟨latest, hlatest⟩ : ∃ latest, (segment.words.map Word.stop).max? = some latest :=
    Option.isSome_iff_exists.mp (List.isSome_max?_iff.mpr (by simpa using hne))
  obtain ⟨hmem, hmax⟩ := List.max?_eq_some_iff.mp hlatest
  rw [hlatest, Option.getD_some] at hstop
  refine ⟨hne, fun first hfirst => ?_, fun last hlast => ?_, hstop ▸ List.mem_map.mp hmem⟩
  · obtain ⟨rest, hwords⟩ := List.head?_eq_some_iff.mp hfirst
    rw [hwords] at hsorted hstart
    have hmin : ((first :: rest).map Word.start).min? = some first.start := by
      refine List.min?_eq_some_iff.mpr ⟨List.mem_cons_self, fun start hstarts => ?_⟩
      obtain ⟨word, hword, rfl⟩ := List.mem_map.mp hstarts
      rcases List.mem_cons.mp hword with rfl | hword
      · exact le_refl _
      · exact (List.pairwise_cons.mp hsorted).1 word hword
    rw [hstart, hmin, Option.getD_some]
  · exact hstop ▸ hmax _ (List.mem_map_of_mem (List.mem_of_getLast? hlast))

theorem timedByWords_splitParts {segment : Segment ℚ} {textStart : ℕ}
    {parts : List (List AnchoredWord)} (hne : ∀ part ∈ parts, part ≠ [])
    (hsorted : ∀ part ∈ parts, (part.map AnchoredWord.word).Pairwise fun a b => a.start ≤ b.start) :
    ∀ piece ∈ splitParts segment textStart parts, TimedByWords piece := by
  induction parts generalizing textStart with
  | nil => intro piece hpiece; cases hpiece
  | cons part parts ih =>
      obtain ⟨hfilled, hparts⟩ := List.forall_mem_cons.mp hne
      obtain ⟨hpart, hrest⟩ := List.forall_mem_cons.mp hsorted
      intro piece hpiece
      rcases List.mem_cons.mp hpiece with rfl | hpiece
      · exact timedByWords_span (mt List.map_eq_nil_iff.mp hfilled) hpart rfl rfl
      · exact ih hparts hrest piece hpiece

/-- What a review makes of a segment is timed by its words again. -/
theorem timedByWords_splitSegment {segment : Segment ℚ} {overlaps : List SpeechOverlap}
    (hnodup : (overlaps.map SpeechOverlap.id).Nodup) (h : TimedByWords segment)
    (hsorted : segment.words.Pairwise fun a b => a.start ≤ b.start) :
    ∀ piece ∈ splitSegment segment overlaps, TimedByWords piece := by
  by_cases hanchored : Anchored segment
  · obtain ⟨anchored, hwords, -, -, ⟨ids, hwhole⟩ | hparts, -⟩ :=
      splitSegment_anchored overlaps hanchored
    · rw [hwhole]
      exact List.forall_mem_singleton.mpr (h.annotate ids)
    · rw [hparts]
      refine timedByWords_splitParts (fun part => ne_nil_of_mem_pieces) fun part hpart => ?_
      have hsub : (part.map AnchoredWord.word).Sublist segment.words := by
        rw [← hwords, ← show (pieces sameIds anchored).flatten = anchored from flatten_pieces anchored]
        exact (List.sublist_flatten_of_mem hpart).map _
      exact hsorted.sublist hsub
  · rw [splitSegment_whole hnodup hanchored]
    exact List.forall_mem_singleton.mpr (h.annotate _)

/-! ### Lines -/

/-- The segments are made of the words by start, each segment of some. -/
structure LinesOf (words : List (Word ℚ)) (segments : List (Segment ℚ)) : Prop where
  words : StablySorted Word.start words (segments.flatMap Segment.words)
  timed : ∀ segment ∈ segments, TimedByWords segment

namespace LinesOf

variable {words : List (Word ℚ)} {segments : List (Segment ℚ)}

theorem of_lined (hwords : StablySorted Word.start words (segments.flatMap Segment.words))
    (hlined : ∀ segment ∈ segments, Lined segment) : LinesOf words segments :=
  ⟨hwords, fun segment hsegment => (hlined segment hsegment).timedByWords⟩

theorem sorted_words (h : LinesOf words segments) {segment : Segment ℚ}
    (hsegment : segment ∈ segments) : segment.words.Pairwise fun a b => a.start ≤ b.start :=
  h.words.ordered.sublist
    (List.sublist_flatten_of_mem (List.mem_map_of_mem (f := Segment.words) hsegment))

/-- The lines come by start, as their words do. -/
theorem inOrder (h : LinesOf words segments) :
    segments.Pairwise fun a b => a.start ≤ b.start := by
  obtain ⟨hwords, htimed⟩ := h
  have hordered := hwords.ordered
  clear hwords
  induction segments with
  | nil => exact .nil
  | cons segment segments ih =>
      obtain ⟨hsegment, hrest⟩ := List.forall_mem_cons.mp htimed
      rw [List.flatMap_cons, List.pairwise_append] at hordered
      refine List.pairwise_cons.mpr ⟨fun other hother => ?_, ih hrest hordered.2.1⟩
      have hfirst := List.head?_eq_some_head hsegment.ne_nil
      have hlater := List.head?_eq_some_head (hrest other hother).ne_nil
      rw [hsegment.start _ hfirst, (hrest other hother).start _ hlater]
      exact hordered.2.2 _ (List.mem_of_head? hfirst) _
        (List.mem_flatMap.mpr ⟨other, hother, List.mem_of_head? hlater⟩)

theorem review {result : TranscriptionResult ℚ} (h : LinesOf words result.segments)
    (review : Option SpeakerReview) :
    LinesOf words (applySpeakerReview result review).segments := by
  refine ⟨(words_applySpeakerReview result review).symm ▸ h.words, ?_⟩
  cases review with
  | none => exact h.timed
  | some review =>
      rw [segments_applySpeakerReview]
      intro piece hpiece
      obtain ⟨segment, hsegment, hpiece⟩ := List.mem_flatMap.mp hpiece
      exact timedByWords_splitSegment review.ids_nodup (h.timed segment hsegment)
        (h.sorted_words hsegment) piece hpiece

end LinesOf

theorem linesOf_segmentsWithoutSpeakers (tuning : AttributionKnobs ℚ) (words : List (Word ℚ)) :
    LinesOf words (segmentsWithoutSpeakers tuning words) := by
  unfold segmentsWithoutSpeakers
  split
  · rename_i hwords
    rw [hwords]
    exact .of_lined (stablySorted_sortedBy _ []) (by simp)
  · refine .of_lined ?_ (lined_groupLabelled _)
    rw [flatMap_words_groupLabelled, List.map_map]
    simpa [Function.comp_def] using stablySorted_sortedBy Word.start words

theorem linesOf_assignSpeakers {L : Letters} {tuning : AttributionKnobs ℚ} {words : List (Word ℚ)}
    {turns : List (Turn ℚ)} {segments : List (Segment ℚ)}
    (h : assignSpeakers L tuning words turns = .ok segments) : LinesOf words segments := by
  refine .of_lined (assignSpeakers_words h) ?_
  by_cases hwords : words = []
  · rw [hwords] at h
    obtain rfl : [] = segments := Except.ok.inj h
    simp
  by_cases hturns : turns = []
  · rw [hturns, assignSpeakers, if_neg hwords] at h
    obtain rfl := Except.ok.inj h
    exact lined_groupLabelled _
  · have hne : sortedBy Turn.start turns ≠ [] := mt sortedBy_eq_nil.mp hturns
    obtain ⟨labels, hlabels, -, -⟩ := speakerLabels_ok L tuning hne (sortedBy Word.start words)
    obtain rfl := Except.ok.inj ((assignSpeakers_eq hturns hlabels).symm.trans h)
    exact forall_mergeShortOrphans _ _ _ (fun a b ha hb => ⟨ha.join hb _, ha.join hb _⟩)
      (lined_groupLabelled _)

/-- A transcript of words is made into lines, unless there are segments to keep instead. -/
theorem linesOf_resolveSegments {L : Letters} {tuning : AttributionKnobs ℚ} {words : List (Word ℚ)}
    {plainSegments segments : List (Segment ℚ)} {turns : Option (List (Turn ℚ))}
    (h : resolveSegments L tuning words plainSegments turns = .ok segments) (hwords : words ≠ [])
    (hkept : turns = none → plainSegments = []) : LinesOf words segments := by
  cases turns with
  | some turns =>
      rw [resolveSegments, if_pos hwords] at h
      exact linesOf_assignSpeakers h
  | none =>
      rw [resolveSegments, if_neg (not_not.mpr (hkept rfl))] at h
      exact Except.ok.inj h ▸ linesOf_segmentsWithoutSpeakers tuning words

/-! ### Retimed segments -/

section Retimed

variable {U : Unicode} {segments : List (Segment ℚ)}

/-- The words of a window's members are its block, so all words are handed out. -/
theorem flatMap_wordsOf_groups {groups : List (List (Fin segments.length))}
    {blocks : List (List (Word ℚ))} (hnodup : groups.flatten.Nodup)
    (hfits : Fits U segments groups blocks) :
    groups.flatten.flatMap (wordsOf segments (attributed U segments groups blocks)) =
      blocks.flatten := by
  have hblocks : groups.map (List.flatMap (wordsOf segments (attributed U segments groups blocks))) =
      blocks := by
    refine List.ext_getElem (by rw [List.length_map, hfits.length_eq]) fun k hk hk' => ?_
    rw [List.getElem_map]
    exact flatMap_wordsOf hnodup hfits (getElem_mem_zip _ hk')
  rw [List.flatMap_def, List.map_flatten, List.flatten_flatten, List.map_map]
  exact congrArg List.flatten hblocks

/-- A segment in no window gets nothing, so the windows can be walked instead. -/
theorem flatMap_wordsOf_all {groups : List (List (Fin segments.length))}
    {blocks : List (List (Word ℚ))} (hfits : Fits U segments groups blocks)
    (order : List (Fin segments.length)) :
    order.flatMap (wordsOf segments (attributed U segments groups blocks)) =
      (order.filter fun i => i ∈ groups.flatten).flatMap
        (wordsOf segments (attributed U segments groups blocks)) := by
  induction order with
  | nil => rfl
  | cons i order ih =>
      by_cases hi : i ∈ groups.flatten
      · rw [List.filter_cons_of_pos (by simpa using hi), List.flatMap_cons, List.flatMap_cons, ih]
      · rw [List.filter_cons_of_neg (by simpa using hi), List.flatMap_cons,
          wordsOf_attributed_of_not_mem hfits hi, List.nil_append, ih]

/-- The words the segments are given are the aligner's, each once. -/
theorem retimed_perm (hU : U.Lawful) {aligner : SegmentAligner} {language : String}
    {tuning : AttributionTuning ℚ} {decoded : Option ℚ}
    {entries : List (Fin segments.length × List (Word ℚ))}
    (h : attributeWords U segments aligner language tuning decoded = .ok entries) :
    ∃ words, aligner (alignWindows U segments tuning decoded) language = .ok words ∧ words ≠ [] ∧
      ((retimeSegments segments (wordsOf segments entries)).flatMap Segment.words).Perm words := by
  obtain ⟨hgroups, words, hwords, hcount, rfl⟩ := (attributeWords_eq_ok hU aligner language).mp h
  have hne : words ≠ [] := by
    rintro rfl
    -- there is a window, and it has a token
    have hlength := length_alignWindows U segments tuning decoded
    have hwindows : windowTokens U segments tuning decoded ≠ [] := fun hnil =>
      hgroups (List.length_eq_zero_iff.mp (by
        rw [← hlength, ← List.length_map (f := fun window => alignableTokens U window.text)]
        exact congrArg List.length hnil))
    exact (List.sum_pos _ (fun n => windowTokens_pos hU) hwindows).ne' hcount
  refine ⟨words, hwords, hne, ?_⟩
  set groups := groupWindows U segments tuning.alignMergeGapS
  set sorted := words.insertionSort fun a b => a.start ≤ b.start
  set blocks := (windowTokens U segments tuning decoded).splitLengths sorted
  have hnodup : groups.flatten.Nodup := nodup_flatten_groupWindows U segments tuning.alignMergeGapS
  have hlen : (windowTokens U segments tuning decoded).sum = sorted.length := by
    rw [hcount, List.length_insertionSort]
  have hfits : Fits U segments groups blocks := fits_windowTokens hU hlen
  have hgrouped : ((List.finRange segments.length).filter fun i => i ∈ groups.flatten).Perm
      groups.flatten := by
    refine (List.perm_ext_iff_of_nodup ((List.nodup_finRange _).filter _) hnodup).mpr fun i => ?_
    simp
  calc (retimeSegments segments (wordsOf segments (attributed U segments groups blocks))).flatMap
          Segment.words
      = (retimedOrder segments (wordsOf segments (attributed U segments groups blocks))).flatMap
          (wordsOf segments (attributed U segments groups blocks)) := by
        rw [retimeSegments_eq, List.flatMap_map]
        exact List.flatMap_congr fun i _ => retime_words _ _
    List.Perm _ ((List.finRange segments.length).flatMap
          (wordsOf segments (attributed U segments groups blocks))) :=
        (perm_retimedOrder _ _).flatMap_right _
    List.Perm _ (groups.flatten.flatMap (wordsOf segments (attributed U segments groups blocks))) := by
        rw [flatMap_wordsOf_all hfits]
        exact hgrouped.flatMap_right _
    _ = blocks.flatten := flatMap_wordsOf_groups hnodup hfits
    _ = sorted := List.flatten_splitLengths _ _ (le_of_eq hlen.symm)
    List.Perm _ words := List.perm_insertionSort _ _

theorem timedByWords_retime {segment : Segment ℚ} {ws : List (Word ℚ)} (h : ws ≠ []) :
    TimedByWords (retime segment ws) := by
  have hrealigned := realigned_retime segment ws
  refine ⟨by rwa [retime_words], fun first hfirst => ?_, fun last hlast => ?_, ?_⟩
  · rw [hrealigned.words, List.head?_eq_some_head h, Option.mem_some_iff] at hfirst
    rw [(hrealigned.tightened h).1, hfirst]
  · rw [hrealigned.words, List.getLast?_eq_some_getLast h, Option.mem_some_iff] at hlast
    rw [(hrealigned.tightened h).2, hlast]
  · rw [hrealigned.words, (hrealigned.tightened h).2]
    exact ⟨ws.getLast h, List.getLast_mem h, rfl⟩

theorem inOrder_retimeSegments {words : Fin segments.length → List (Word ℚ)} :
    (retimeSegments segments words).Pairwise fun a b => a.start ≤ b.start := by
  rw [retimeSegments_eq, List.pairwise_map]
  exact pairwise_retimedOrder.imp fun h => h.elim le_of_lt fun h => le_of_eq h.1

end Retimed

/-! ### What results tell -/

/-- The result tells the words: each once, in segments that come by start and are timed by them. -/
structure Tells (result : TranscriptionResult ℚ) (words : List (Word ℚ)) : Prop where
  words : (result.segments.flatMap Segment.words).Perm words
  timed : ∀ segment ∈ result.segments, segment.words ≠ [] → TimedByWords segment
  inOrder : result.segments.Pairwise fun a b => a.start ≤ b.start
  text : result.text = renderText result.segments

/-- The result is told in lines of the words. -/
structure ToldInLines (result : TranscriptionResult ℚ) (words : List (Word ℚ)) : Prop where
  lines : LinesOf words result.segments
  text : result.text = renderText result.segments

theorem ToldInLines.tells {result : TranscriptionResult ℚ} {words : List (Word ℚ)}
    (h : ToldInLines result words) : Tells result words where
  words := h.lines.words.perm
  timed segment hsegment _ := h.lines.timed segment hsegment
  inOrder := h.lines.inOrder
  text := h.text

theorem ToldInLines.review {result : TranscriptionResult ℚ} {words : List (Word ℚ)}
    (h : ToldInLines result words) (review : Option SpeakerReview) :
    ToldInLines (applySpeakerReview result review) words where
  lines := h.lines.review review
  text := by
    cases review with
    | none => exact h.text
    | some review => rfl

namespace Deployment

variable (d : Deployment)

/-- The windows a call hands to the aligner when it aligns the caller's text, and the language. -/
def callerWindows : Call → Option (List (Segment ℚ) × String)
  | .transcribe .. => none
  | .labelSpeakers words segments language .. =>
    some (labelWindows d.audio (callerWords words segments) segments, language)
  | .alignTranscript segments language _ =>
    some (alignWindows d.unicode segments d.tuning.toAttributionTuning d.audio.decoded, language)
  | .timestampTranscript segments language _ =>
    some (alignmentInput segments true (audioDuration d.audio.decoded (lastEnd segments)), language)

/-- Where the words of an answer come from, and the rung that names it. -/
inductive Source : Tier → Call → Jobs.Alignment → List (Word ℚ) → Prop
  | transcription {language model diarize speakers includeSpeakerReview shapes words}
      (hshapes : d.transcription (if language = "auto" then none else some language) model =
        .ok shapes)
      (hwords : wordsFromAlignments d.repr shapes = .ok words) :
      Source .local_ (.transcribe language model diarize speakers includeSpeakerReview) .forced words
  | alignedProvider {language model diarize speakers includeSpeakerReview payload duration
        providerWords segments words}
      (hpayload : requestTranscription d.casts d.response = .ok payload)
      (hduration : payloadDuration d.casts payload = .ok duration)
      (hparse : parseVerboseJson d.casts payload = .ok (providerWords, segments))
      (hwords : forceAlignSegments d.align d.audio
        (HybridEngine.alignSegments duration providerWords segments) language
        (payloadText d.casts payload) = .ok words) (hne : words ≠ []) :
      Source .hybrid (.transcribe language model diarize speakers includeSpeakerReview) .forced words
  | provider {language model diarize speakers includeSpeakerReview payload words segments}
      (hpayload : requestTranscription d.casts d.response = .ok payload)
      (hparse : parseVerboseJson d.casts payload = .ok (words, segments)) (hne : words ≠ [])
      (hpaced : segments ≠ [] → wordsPlausible words = true) :
      Source .remote (.transcribe language model diarize speakers includeSpeakerReview)
        .providerWords words
  | caller {tier words segments language model speakers includeSpeakerReview}
      (hne : callerWords words segments ≠ [])
      (hpaced : wordsPlausible (callerWords words segments) = true)
      (hprefer : d.diarizePreferAlign = false) :
      Source tier (.labelSpeakers words segments language model speakers includeSpeakerReview)
        .providerWords (callerWords words segments)
  | aligned {tier call windows language words} (hwindows : d.callerWindows call = some (windows, language))
      (hwords : d.segmentAligner d.audio windows language = .ok words) (hne : words ≠ []) :
      Source tier call .forced words

/-- The provider's segments are the transcript: they have no words that can be used, or nobody asks
who speaks.  Then they come back as they are; otherwise each becomes one or more that hold its text,
said by the speakers heard, and what a review makes of those. -/
inductive KeepsSegments : Tier → Call → TranscriptionResult ℚ → Prop
  | mk {language model diarize speakers includeSpeakerReview payload words segments result}
      (hpayload : requestTranscription d.casts d.response = .ok payload)
      (hparse : parseVerboseJson d.casts payload = .ok (words, segments)) (hne : segments ≠ [])
      (hkept : words = [] ∨ wordsPlausible words = false ∨ diarize = false)
      (hundiarized : diarize = false → result.segments = segments)
      (hdiarized : diarize = true → ∃ turns review parts base,
        d.turnsAndReview true speakers includeSpeakerReview = .ok (some turns, review) ∧
        List.Forall₂ (SplitOf turns) segments parts ∧ base.segments = parts.flatten ∧
        result = applySpeakerReview base review) :
      KeepsSegments .remote (.transcribe language model diarize speakers includeSpeakerReview) result

variable {d} {tier : Tier} {result : TranscriptionResult ℚ}

/-- A check that passed. -/
theorem unless_error_eq_ok {α β ε : Type} {p : Prop} [Decidable p] {e : ε} {f : β → Except ε α}
    {x : Except ε α} {a : α} :
    (if p then Except.error e >>= f else x) = .ok a ↔ ¬ p ∧ x = .ok a := by
  by_cases hp : p
  · rw [if_pos hp]
    exact iff_of_false (fun h => nomatch h) fun h => h.1 hp
  · rw [if_neg hp]
    exact (and_iff_right hp).symm

theorem timestampTranscript_tells {segments : List (Segment ℚ)} {language model : String}
    (h : d.answer tier (.timestampTranscript segments language model) = .ok result) :
    ∃ words, result.alignment = some .forced ∧
      d.Source tier (.timestampTranscript segments language model) .forced words ∧
      ToldInLines result words := by
  simp only [answer, timestampTranscript, except_bind_eq_ok, unless_error_eq_ok] at h
  obtain ⟨words, hwords, hne, h⟩ := h
  cases Except.ok.inj h
  exact ⟨words, rfl, .aligned rfl hwords hne, linesOf_segmentsWithoutSpeakers d.tuning words, rfl⟩

theorem alignTranscript_tells (hU : d.unicode.Lawful) {segments : List (Segment ℚ)}
    {language model : String}
    (h : d.answer tier (.alignTranscript segments language model) = .ok result) :
    ∃ words, result.alignment = some .forced ∧
      d.Source tier (.alignTranscript segments language model) .forced words ∧
      Tells result words := by
  have halign : Pipeline.alignTranscript d.unicode segments (d.segmentAligner d.audio) language model
      d.tuning.toAttributionTuning d.audio.decoded = .ok result := by
    rw [answer] at h
    cases hcall : Pipeline.alignTranscript d.unicode segments (d.segmentAligner d.audio) language
      model d.tuning.toAttributionTuning d.audio.decoded with
    | error e => rw [hcall] at h; cases h
    | ok given => rw [hcall] at h; exact congrArg Except.ok (Except.ok.inj h)
  unfold Pipeline.alignTranscript at halign
  split at halign
  · cases halign
  · rename_i entries hentries
    cases Except.ok.inj halign
    obtain ⟨words, hwords, hne, hperm⟩ := retimed_perm hU hentries
    refine ⟨words, rfl, .aligned rfl hwords hne, hperm, fun segment hsegment hfilled => ?_,
      inOrder_retimeSegments, rfl⟩
    rw [retimeSegments_eq] at hsegment
    obtain ⟨i, -, rfl⟩ := List.mem_map.mp hsegment
    exact timedByWords_retime (by rwa [retime_words] at hfilled)

/-- The words of a caller that are merged as they are pass every guard. -/
theorem trustedWords_ne_nil {preferAlignment : Bool} {words : List (Word ℚ)}
    (h : trustedWords preferAlignment words ≠ []) :
    trustedWords preferAlignment words = words ∧ words ≠ [] ∧ wordsPlausible words = true ∧
      preferAlignment = false := by
  by_cases hdiscarded : wordsDiscarded words = true
  · exact absurd (by simp [trustedWords, hdiscarded]) h
  · cases preferAlignment with
    | true => exact absurd (by simp [trustedWords, hdiscarded]) h
    | false =>
        have hsame : trustedWords false words = words := by simp [trustedWords, hdiscarded]
        rw [hsame] at h
        refine ⟨hsame, h, ?_, rfl⟩
        by_contra hcompressed
        exact hdiscarded (decide_eq_true ⟨h, hcompressed⟩)

theorem labelSpeakers_source {words used : List (Word ℚ)} {segments : List (Segment ℚ)}
    {language model : String} {speakers : Option SpeakerBounds} {includeSpeakerReview : Bool}
    {rung : Jobs.Alignment}
    (h : mergedWords d.diarizePreferAlign (some (d.segmentAligner d.audio)) d.audio words segments
      language = .ok (used, rung)) :
    used ≠ [] ∧ d.Source tier
      (.labelSpeakers words segments language model speakers includeSpeakerReview) rung used := by
  unfold mergedWords at h
  dsimp only at h
  split at h
  · rename_i htrusted
    obtain ⟨hsame, hne, hpaced, hprefer⟩ := trustedWords_ne_nil htrusted
    cases Except.ok.inj h
    rw [hsame]
    exact ⟨hne, .caller hne hpaced hprefer⟩
  · obtain ⟨aligned, haligned, h⟩ := except_bind_eq_ok.mp h
    split at h
    · cases h
    · rename_i hne
      cases Except.ok.inj h
      exact ⟨hne, .aligned rfl haligned hne⟩

theorem labelSpeakers_tells {words : List (Word ℚ)} {segments : List (Segment ℚ)}
    {language model : String} {speakers : Option SpeakerBounds} {includeSpeakerReview : Bool}
    (h : d.answer tier (.labelSpeakers words segments language model speakers
      includeSpeakerReview) = .ok result) :
    ∃ rung used, result.alignment = some rung ∧
      d.Source tier (.labelSpeakers words segments language model speakers includeSpeakerReview)
        rung used ∧ ToldInLines result used := by
  simp only [answer, Engine.labelSpeakers, labelSpeakers, except_bind_eq_ok] at h
  obtain ⟨⟨used, rung⟩, hmerged, ⟨turns, review⟩, -, labelled, hlabelled, h⟩ := h
  cases Except.ok.inj h
  obtain ⟨hne, hsource⟩ := labelSpeakers_source hmerged
  exact ⟨rung, used, applySpeakerReview_alignment _ _, hsource,
    ToldInLines.review ⟨linesOf_resolveSegments hlabelled hne (by simp), rfl⟩ review⟩

/-- What is built of lines tells them. -/
theorem buildResult_tells {casts : Casts ℚ} {payload : Payload} {words : List (Word ℚ)}
    {segments : List (Segment ℚ)} {model language : String} {alignment : Option Jobs.Alignment}
    {base : TranscriptionResult ℚ}
    (h : buildResult casts payload segments model language alignment = .ok base)
    (hlines : LinesOf words segments) : ToldInLines base words := by
  obtain ⟨duration, -, h⟩ := except_bind_eq_ok.mp h
  cases Except.ok.inj h
  exact ⟨hlines, rfl⟩

theorem hybrid_tells {language model : String} {diarize : Bool} {speakers : Option SpeakerBounds}
    {includeSpeakerReview : Bool}
    (h : d.answer .hybrid (.transcribe language model diarize speakers includeSpeakerReview) =
      .ok result) :
    ∃ words, result.alignment = some .forced ∧
      d.Source .hybrid (.transcribe language model diarize speakers includeSpeakerReview) .forced
        words ∧ ToldInLines result words := by
  simp only [answer, transcribe, HybridEngine.transcribe, except_bind_eq_ok,
    unless_error_eq_ok] at h
  obtain ⟨payload, hpayload, ⟨providerWords, segments⟩, hparse, -, duration, hduration, words,
    hwords, hne, ⟨turns, review⟩, -, labelled, hlabelled, base, hbase, h⟩ := h
  cases Except.ok.inj h
  have hlines := linesOf_resolveSegments hlabelled hne fun _ => rfl
  refine ⟨words, ?_, .alignedProvider hpayload hduration hparse hwords hne,
    (buildResult_tells hbase hlines).review review⟩
  rw [applySpeakerReview_alignment, (buildResult_eq_ok hbase).2]

theorem local_tells {language model : String} {diarize : Bool} {speakers : Option SpeakerBounds}
    {includeSpeakerReview : Bool}
    (h : d.answer .local_ (.transcribe language model diarize speakers includeSpeakerReview) =
      .ok result) :
    ∃ words, result.alignment = some .forced ∧
      d.Source .local_ (.transcribe language model diarize speakers includeSpeakerReview) .forced
        words ∧ ToldInLines result words := by
  simp only [answer, transcribe, transcribeLocally, except_bind_eq_ok] at h
  obtain ⟨shapes, hshapes, words, hwords, ⟨turns, review⟩, -, h⟩ := h
  cases turns with
  | some turns =>
      obtain ⟨segments, hsegments, h⟩ := except_bind_eq_ok.mp h
      cases Except.ok.inj h
      exact ⟨words, applySpeakerReview_alignment _ _, .transcription hshapes hwords,
        ToldInLines.review ⟨linesOf_assignSpeakers hsegments, rfl⟩ review⟩
  | none =>
      cases Except.ok.inj h
      exact ⟨words, applySpeakerReview_alignment _ _, .transcription hshapes hwords,
        ToldInLines.review ⟨linesOf_segmentsWithoutSpeakers d.tuning words, rfl⟩ review⟩

theorem gatedWords_ne_nil {words : List (Word ℚ)} {segments : List (Segment ℚ)}
    (h : OpenAIWhisperEngine.gatedWords words segments ≠ []) :
    OpenAIWhisperEngine.gatedWords words segments = words ∧
      (segments ≠ [] → wordsPlausible words = true) := by
  unfold OpenAIWhisperEngine.gatedWords at h ⊢
  split at h
  · exact absurd rfl h
  · rename_i hgate
    rw [if_neg hgate]
    refine ⟨rfl, fun hsegments => ?_⟩
    by_contra hcompressed
    exact hgate ⟨h, hsegments, hcompressed⟩

theorem turnsAndReview_none {engine : Engine} {diarize : Bool} {speakers : Option SpeakerBounds}
    {includeSpeakerReview : Bool} {review : Option SpeakerReview}
    (h : engine.turnsAndReview diarize speakers includeSpeakerReview = .ok (none, review)) :
    diarize = false := by
  cases diarize with
  | false => rfl
  | true =>
      obtain ⟨_, -, h⟩ := except_bind_eq_ok.mp h
      cases h

/-- Segments that are not regrouped are split at the turns, or left. -/
theorem kept_resolveSegments {L : Letters} {tuning : AttributionKnobs ℚ} {words : List (Word ℚ)}
    {segments labelled : List (Segment ℚ)} {turns : Option (List (Turn ℚ))}
    (h : resolveSegments L tuning words segments turns = .ok labelled) (hne : segments ≠ []) :
    (turns = none → labelled = segments) ∧
      (words = [] → ∀ heard ∈ turns, ∃ parts, List.Forall₂ (SplitOf heard) segments parts ∧
        labelled = parts.flatten) := by
  refine ⟨?_, ?_⟩
  · rintro rfl
    simp only [resolveSegments, if_pos hne] at h
    exact (Except.ok.inj h).symm
  · rintro rfl heard rfl
    obtain ⟨parts, hparts, hall⟩ := assignSpeakersToSegments_splits ({} : SplitKnobs ℚ) heard segments
    simp only [resolveSegments, ne_eq, not_true_eq_false, if_false, hparts] at h
    exact ⟨parts, hall, (Except.ok.inj h).symm⟩

/-- A provider's segments are kept where its words are not used, or nobody asks for turns. -/
theorem keepsSegments_of {language model : String} {diarize : Bool} {speakers : Option SpeakerBounds}
    {includeSpeakerReview : Bool} {payload : Payload} {words : List (Word ℚ)}
    {segments labelled : List (Segment ℚ)} {turns : Option (List (Turn ℚ))}
    {review : Option SpeakerReview} {base : TranscriptionResult ℚ}
    (hpayload : requestTranscription d.casts d.response = .ok payload)
    (hparse : parseVerboseJson d.casts payload = .ok (words, segments)) (hne : segments ≠ [])
    (hkept : OpenAIWhisperEngine.gatedWords words segments = [] ∨ diarize = false)
    (hturns : d.turnsAndReview diarize speakers includeSpeakerReview = .ok (turns, review))
    (hlabelled : resolveSegments d.letters d.tuning (OpenAIWhisperEngine.gatedWords words segments)
      segments turns = .ok labelled) (hbase : base.segments = labelled) :
    d.KeepsSegments .remote (.transcribe language model diarize speakers includeSpeakerReview)
      (applySpeakerReview base review) := by
  obtain ⟨hverbatim, hsplit⟩ := kept_resolveSegments hlabelled hne
  refine ⟨hpayload, hparse, hne, ?_, ?_, ?_⟩
  · rw [OpenAIWhisperEngine.gatedWords_eq_nil, or_assoc] at hkept
    exact hkept.imp_right (Or.imp_left And.right)
  · rintro rfl
    cases Except.ok.inj hturns
    exact hbase.trans (hverbatim rfl)
  · rintro rfl
    cases turns with
    | none => exact absurd (turnsAndReview_none hturns) Bool.noConfusion
    | some heard =>
        obtain ⟨parts, hparts, rfl⟩ := hsplit (hkept.resolve_right Bool.noConfusion) heard rfl
        exact ⟨heard, review, parts, base, hturns, hparts, hbase, rfl⟩

theorem remote_tells {language model : String} {diarize : Bool} {speakers : Option SpeakerBounds}
    {includeSpeakerReview : Bool}
    (h : d.answer .remote (.transcribe language model diarize speakers includeSpeakerReview) =
      .ok result) :
    (∃ words, result.alignment = some .providerWords ∧
      d.Source .remote (.transcribe language model diarize speakers includeSpeakerReview)
        .providerWords words ∧ ToldInLines result words) ∨
      d.KeepsSegments .remote
        (.transcribe language model diarize speakers includeSpeakerReview) result := by
  simp only [answer, transcribe, OpenAIWhisperEngine.transcribe, except_bind_eq_ok] at h
  obtain ⟨payload, hpayload, ⟨words, segments⟩, hparse, ⟨turns, review⟩, hturns, labelled,
    hlabelled, base, hbase, h⟩ := h
  cases Except.ok.inj h
  have hsegments := (buildResult_eq_ok hbase).1
  by_cases hgated : OpenAIWhisperEngine.gatedWords words segments = []
  · have hne : segments ≠ [] := (OpenAIWhisperEngine.gatedWords_eq_nil.mp hgated).elim
      (parseVerboseJson_ne_nil hparse) And.left
    exact .inr (keepsSegments_of hpayload hparse hne (.inl hgated) hturns hlabelled hsegments)
  by_cases hkept : segments ≠ [] ∧ diarize = false
  · exact .inr (keepsSegments_of hpayload hparse hkept.1 (.inr hkept.2) hturns hlabelled hsegments)
  obtain ⟨hsame, hpaced⟩ := gatedWords_ne_nil hgated
  rw [hsame] at hgated hlabelled hbase
  have hlines : LinesOf words labelled := by
    refine linesOf_resolveSegments hlabelled hgated fun hnone => ?_
    subst hnone
    by_contra hsegments
    exact hkept ⟨hsegments, turnsAndReview_none hturns⟩
  refine .inl ⟨words, ?_, .provider hpayload hparse hgated hpaced,
    (buildResult_tells hbase hlines).review review⟩
  rw [applySpeakerReview_alignment, (buildResult_eq_ok hbase).2, if_pos hgated]

/-- **Words are conserved, whichever engine answers**: the words of a result are those of the source
its rung names, each once, in segments that are timed by them; only a provider's segments are kept,
as they are or split at the turns. -/
theorem engine_conserves (d : Deployment) (hU : d.unicode.Lawful) {tier : Tier} {call : Call}
    {result : TranscriptionResult ℚ} (h : d.answer tier call = .ok result) :
    (∃ rung words, result.alignment = some rung ∧ d.Source tier call rung words ∧
        Tells result words ∧
        ((∀ segments language model, call ≠ .alignTranscript segments language model) →
          ToldInLines result words)) ∨
      d.KeepsSegments tier call result := by
  cases call with
  | transcribe language model diarize speakers includeSpeakerReview =>
      cases tier with
      | local_ =>
          obtain ⟨words, hrung, hsource, htold⟩ := local_tells h
          exact .inl ⟨_, words, hrung, hsource, htold.tells, fun _ => htold⟩
      | hybrid =>
          obtain ⟨words, hrung, hsource, htold⟩ := hybrid_tells h
          exact .inl ⟨_, words, hrung, hsource, htold.tells, fun _ => htold⟩
      | remote =>
          refine (remote_tells h).imp_left fun ⟨words, hrung, hsource, htold⟩ => ?_
          exact ⟨_, words, hrung, hsource, htold.tells, fun _ => htold⟩
      | diarize => cases h
  | labelSpeakers words segments language model speakers includeSpeakerReview =>
      obtain ⟨rung, used, hrung, hsource, htold⟩ := labelSpeakers_tells h
      exact .inl ⟨rung, used, hrung, hsource, htold.tells, fun _ => htold⟩
  | alignTranscript segments language model =>
      obtain ⟨words, hrung, hsource, htells⟩ := alignTranscript_tells hU h
      exact .inl ⟨_, words, hrung, hsource, htells, fun hne => absurd rfl (hne _ _ _)⟩
  | timestampTranscript segments language model =>
      obtain ⟨words, hrung, hsource, htold⟩ := timestampTranscript_tells h
      exact .inl ⟨_, words, hrung, hsource, htold.tells, fun _ => htold⟩

/-! ### Calls without speakers -/

theorem turnsAndReview_false {engine : Engine} {speakers : Option SpeakerBounds}
    {includeSpeakerReview : Bool} {answer : Option (List (Turn ℚ)) × Option SpeakerReview}
    (h : engine.turnsAndReview false speakers includeSpeakerReview = .ok answer) :
    answer = (none, none) := (Except.ok.inj h).symm

/-- A transcript nobody asked the speakers of is told in reader lines. -/
theorem transcribe_lines {language model : String} {speakers : Option SpeakerBounds}
    {includeSpeakerReview : Bool}
    (h : d.answer tier (.transcribe language model false speakers includeSpeakerReview) =
      .ok result) :
    (∃ words, result.segments = segmentsWithoutSpeakers d.tuning words) ∨
      d.KeepsSegments tier (.transcribe language model false speakers includeSpeakerReview) result := by
  cases tier with
  | local_ =>
      simp only [answer, transcribe, transcribeLocally, except_bind_eq_ok] at h
      obtain ⟨_, -, words, -, _, hturns, h⟩ := h
      cases turnsAndReview_false hturns
      cases Except.ok.inj h
      exact .inl ⟨words, rfl⟩
  | hybrid =>
      simp only [answer, transcribe, HybridEngine.transcribe, except_bind_eq_ok,
        unless_error_eq_ok] at h
      obtain ⟨_, -, _, -, -, _, -, words, -, -, _, hturns, labelled, hlabelled, base, hbase, h⟩ := h
      cases turnsAndReview_false hturns
      cases Except.ok.inj h
      cases Except.ok.inj hlabelled
      exact .inl ⟨words, (buildResult_eq_ok hbase).1⟩
  | remote =>
      simp only [answer, transcribe, OpenAIWhisperEngine.transcribe, except_bind_eq_ok] at h
      obtain ⟨payload, hpayload, ⟨words, segments⟩, hparse, ⟨turns, review⟩, hturns, labelled,
        hlabelled, base, hbase, h⟩ := h
      cases Except.ok.inj h
      by_cases hsegments : segments = []
      · cases turnsAndReview_false hturns
        rw [hsegments] at hlabelled
        cases Except.ok.inj hlabelled
        exact .inl ⟨_, (buildResult_eq_ok hbase).1⟩
      · exact .inr (keepsSegments_of hpayload hparse hsegments (.inr rfl) hturns hlabelled
          (buildResult_eq_ok hbase).1)
  | diarize => cases h

theorem timestampTranscript_lines {segments : List (Segment ℚ)} {language model : String}
    (h : d.answer tier (.timestampTranscript segments language model) = .ok result) :
    ∃ words, result.segments = segmentsWithoutSpeakers d.tuning words := by
  simp only [answer, timestampTranscript, except_bind_eq_ok, unless_error_eq_ok] at h
  obtain ⟨words, -, -, h⟩ := h
  cases Except.ok.inj h
  exact ⟨words, rfl⟩

/-- The engine with one voice, where the aligner hears Anna and Bo. -/
def annaAndBo : Deployment where
  toEngine := { oneVoice with align := fun _ _ => .ok oneAndTwo.flatten }
  unicode := .latin
  audio := ⟨none, none⟩
  transcription _ _ := .error "easytranscriber is not installed"
  repr _ := "<object>"
  response := .obj []

/-- The lines of their words. -/
def annaAndBoLines : TranscriptionResult ℚ where
  language := "sv"
  durationSeconds := 12
  model := "external"
  text := "[00:00:00 - 00:00:12] hej god dag"
  segments := [⟨1 / 4, 12, none, "hej god dag", oneAndTwo.flatten, none, []⟩]
  alignment := some .forced

theorem engine_conserves_lines :
    ∃ rung words, annaAndBoLines.alignment = some rung ∧
      annaAndBo.Source .diarize (.timestampTranscript twoSpeakers "sv" "external") rung words ∧
      Tells annaAndBoLines words ∧
      ((∀ segments language model, Call.timestampTranscript twoSpeakers "sv" "external" ≠
          .alignTranscript segments language model) → ToldInLines annaAndBoLines words) :=
  have hanswer : annaAndBo.answer .diarize (.timestampTranscript twoSpeakers "sv" "external") =
    .ok annaAndBoLines := by decide +kernel
  (engine_conserves annaAndBo Unicode.latin_lawful hanswer).resolve_right nofun

end Deployment

end Vemsa.Pipeline
