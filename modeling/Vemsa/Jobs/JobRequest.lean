import Vemsa.Support.Json
import Vemsa.Jobs.Models

/-!
# Jobs — JobRequest

A submitted request: its schema, its validators, and the JSON it is stored as.  A `JobRequest` is
a set of field values the validators let through, so a request that was never validated cannot
be built.

`Pydantic` stands for the conversions the library makes for scalar fields, and for what its texts are:
a `str` may hold lone surrogates, which UTF-8 has no bytes for.
-/

namespace Vemsa.Jobs
open Vemsa.Support

/-! ### Scalar fields -/

/-- How the library reads a scalar field; `Url` is its normalised `HttpUrl`.  Every text stands for a
`str`, and `encodes` says for which ones UTF-8 has bytes. -/
structure Pydantic where
  str : Decoder String
  float : Decoder PyFloat
  int : Decoder ℤ
  bool : Decoder Bool
  Url : Type
  url : Decoder Url
  urlText : Url → String
  encodes : String → Bool

/-- A value of the field's own type is accepted as it is, a `float` field rejects `null`, and a
normalised URL is read back. -/
structure Pydantic.Lawful (P : Pydantic) : Prop where
  str_str : ∀ s, P.str (.str s) = .ok s
  float_num : ∀ x, P.float (.num x) = .ok x
  float_null : ∀ x, P.float .null ≠ .ok x
  int_num : ∀ n : ℤ, P.int (.num (.finite n)) = .ok n
  bool_bool : ∀ b, P.bool (.bool b) = .ok b
  url_urlText : ∀ u, P.url (.str (P.urlText u)) = .ok u
  str_null : ∀ s, P.str .null ≠ .ok s
  int_null : ∀ n, P.int .null ≠ .ok n
  url_null : ∀ u, P.url .null ≠ .ok u

/-- The conversions that take a value of the field's own type and nothing else; no text has a lone
surrogate. -/
def Pydantic.strict : Pydantic where
  str
    | .str s => .ok s
    | _ => .error ⟨[], .scalar "Input should be a valid string"⟩
  float
    | .num x => .ok x
    | _ => .error ⟨[], .scalar "Input should be a valid number"⟩
  int
    | .num (.finite q) =>
      if q.den = 1 then .ok q.num else .error ⟨[], .scalar "Input should be a valid integer"⟩
    | _ => .error ⟨[], .scalar "Input should be a valid integer"⟩
  bool
    | .bool b => .ok b
    | _ => .error ⟨[], .scalar "Input should be a valid boolean"⟩
  Url := String
  url
    | .str s => .ok s
    | _ => .error ⟨[], .scalar "URL input should be a string or URL"⟩
  urlText := id
  encodes _ := true

theorem Pydantic.strict_lawful : Pydantic.strict.Lawful where
  str_str _ := rfl
  float_num _ := rfl
  float_null _ := nofun
  int_num n := by simp [strict]
  bool_bool _ := rfl
  url_urlText _ := rfl
  str_null _ := nofun
  int_null _ := nofun
  url_null _ := nofun

/-! ### Words and segments -/

section Transcript

variable (P : Pydantic)

/-- `Word.model_validate` -/
def Word.decode : Decoder (Word PyFloat) := dict fun fields => do
  let word ← field "word" P.str fields
  let start ← field "start" P.float fields
  let stop ← field "end" P.float fields
  let probability ← fieldOr "probability" none (nullable P.float) fields
  return { word, start, stop, probability }

/-- `Word.model_dump_json` -/
def Word.dump (w : Word PyFloat) : Json :=
  .obj [("word", .str w.word), ("start", .ofFloat w.start), ("end", .ofFloat w.stop),
    ("probability", encOption .ofFloat w.probability)]

/-- `Segment.model_validate` -/
def Segment.decode : Decoder (Segment PyFloat) := dict fun fields => do
  let start ← field "start" P.float fields
  let stop ← field "end" P.float fields
  let speaker ← fieldOr "speaker" none (nullable P.str) fields
  let text ← field "text" P.str fields
  let words ← fieldOr "words" [] (listOf (Word.decode P)) fields
  let speakerAttribution ←
    fieldOr "speaker_attribution" none (nullable (literal SpeakerAttribution.values)) fields
  let overlapIds ← fieldOr "overlap_ids" [] (listOf P.str) fields
  return { start, stop, speaker, text, words, speakerAttribution, overlapIds }

/-- `Segment.model_dump_json` -/
def Segment.dump (s : Segment PyFloat) : Json :=
  .obj [("start", .ofFloat s.start), ("end", .ofFloat s.stop),
    ("speaker", encOption .str s.speaker), ("text", .str s.text),
    ("words", .arr (s.words.map Word.dump)),
    ("speaker_attribution", encOption (fun a => .str a.value) s.speakerAttribution),
    ("overlap_ids", .arr (s.overlapIds.map .str))]

end Transcript

/-- The strings of a segment that are not of a fixed vocabulary. -/
def Segment.texts (s : Segment PyFloat) : List String :=
  s.speaker.toList ++ [s.text] ++ s.words.map Word.word ++ s.overlapIds

/-! ### Requests -/

/-- The fields of `JobRequest`. -/
structure RequestFields (Url : Type) where
  task : JobTask := .transcribe
  sourceUrl : Option Url := none
  language : Language := .auto
  model : Option String := none
  diarize : Bool := true
  includeSpeakerReview : Bool := false
  webhookUrl : Option Url := none
  words : Option (List (Word PyFloat)) := none
  segments : Option (List (Segment PyFloat)) := none
  numSpeakers : Option ℤ := none
  minSpeakers : Option ℤ := none
  maxSpeakers : Option ℤ := none
  vocabulary : Option (List String) := none

/-- `VOCABULARY_MAX_TERMS` -/
def vocabularyMaxTerms : ℕ := 50

/-- `VOCABULARY_MAX_TERM_CHARS` -/
def vocabularyMaxTermChars : ℕ := 64

/-- `VOCABULARY_MAX_TOTAL_CHARS` -/
def vocabularyMaxTotalChars : ℕ := 1024

/-- `_clean_vocabulary` -/
def cleanVocabulary : Option (List String) → Except String (Option (List String))
  | none => .ok none
  | some value =>
    let terms := (value.map pyStrip).filter fun term => !term.isEmpty
    if terms.isEmpty then .ok none
    else if vocabularyMaxTerms < terms.length then
      .error s!"vocabulary is capped at {vocabularyMaxTerms} entries"
    else if terms.any fun term => vocabularyMaxTermChars < term.length then
      .error s!"vocabulary terms are capped at {vocabularyMaxTermChars} characters"
    else if vocabularyMaxTotalChars < (terms.map String.length).sum then
      .error s!"vocabulary is capped at {vocabularyMaxTotalChars} characters total"
    else .ok (some terms)

namespace RequestFields

variable {Url : Type} (r : RequestFields Url)

/-- `speaker_bounds() is not None` -/
def bounded : Bool := r.numSpeakers.isSome || r.minSpeakers.isSome || r.maxSpeakers.isSome

/-- The timestamps `_validate_task` looks at: not those of words nested in segments. -/
def spans : List (PyFloat × PyFloat) :=
  (r.words.getD []).map (fun word => (word.start, word.stop)) ++
    (r.segments.getD []).map fun segment => (segment.start, segment.stop)

/-- `_validate_task`: the message of the first check that fails. -/
def validateTask : Option String :=
  let segments := r.segments.getD []
  if r.includeSpeakerReview && (!r.diarize || r.task = .align) then
    some "include_speaker_review requires a diarized transcribe or diarize job"
  else if (r.task = .align || r.task = .timestamp) &&
      segments.any (fun segment => segment.speakerAttribution.isSome || !segment.overlapIds.isEmpty)
    then
    some s!"task={r.task.value} cannot retime speaker-review metadata"
  else if r.numSpeakers.isSome && (r.minSpeakers.isSome || r.maxSpeakers.isSome) then
    some "num_speakers excludes min_speakers and max_speakers"
  else if (match r.minSpeakers, r.maxSpeakers with
      | some lo, some hi => decide (hi < lo)
      | _, _ => false) then
    some "min_speakers cannot exceed max_speakers"
  else if (r.task = .align || r.task = .timestamp) && r.bounded then
    some s!"speaker bounds are not accepted for task={r.task.value} (no diarization)"
  else if !r.diarize && r.bounded then some "speaker bounds require diarize=true"
  else if r.task ≠ .transcribe && r.vocabulary.isSome then
    some "vocabulary is only accepted for task=transcribe"
  else if r.task = .transcribe then
    if r.words.isSome || r.segments.isSome then
      some "words and segments are not accepted for task=transcribe"
    else none
  else if r.task = .diarize && (r.words.getD []).isEmpty && segments.isEmpty then
    some "task=diarize requires a non-empty words or segments list"
  else if r.task ≠ .diarize && (r.words.isSome ||
      (r.task = .timestamp && segments.any fun segment => !segment.words.isEmpty)) then
    some s!"words are not accepted for task={r.task.value} (send segments)"
  else if r.task ≠ .diarize && !segments.any (fun segment => !(pyStrip segment.text).isEmpty) then
    some s!"task={r.task.value} requires a non-empty segments list with text"
  else if r.task = .timestamp && r.diarize then
    some "task=timestamp cannot set diarize=true (it returns no speakers)"
  else if r.task = .timestamp && segments.any (fun segment => segment.speaker.isSome) then
    some "task=timestamp takes segments without speakers"
  else if r.task ≠ .timestamp && !r.diarize then some s!"task={r.task.value} cannot set diarize=false"
  else if r.spans.any (fun span => span.1.lt (.finite 0) || span.2.lt span.1) then
    some "transcript timestamps must satisfy 0 <= start <= end"
  else none

end RequestFields

/-- `JobRequest`: field values that passed the validators. -/
structure JobRequest (P : Pydantic) where
  fields : RequestFields P.Url
  ge_one : ∀ n ∈ fields.numSpeakers.toList ++ fields.minSpeakers.toList ++
    fields.maxSpeakers.toList, 1 ≤ n
  vocabulary_clean : cleanVocabulary fields.vocabulary = .ok fields.vocabulary
  task_valid : fields.validateTask = none

/-- The request for a source URL, with every default. -/
def JobRequest.ofUrl {P : Pydantic} (url : P.Url) : JobRequest P where
  fields := { sourceUrl := some url }
  ge_one := by simp
  vocabulary_clean := rfl
  task_valid := rfl

/-- The request for an upload, with every default. -/
def JobRequest.ofUpload {P : Pydantic} : JobRequest P where
  fields := {}
  ge_one := by simp
  vocabulary_clean := rfl
  task_valid := rfl

section Validate

variable (P : Pydantic)

/-- `_timestamp_never_diarizes` -/
def timestampNeverDiarizes (value : Json) : Json :=
  match value with
  | .obj fields =>
    if (fields.lookup "task").any (Json.isStr "timestamp") && (fields.lookup "diarize").isNone then
      .obj (fields ++ [("diarize", .bool false)])
    else value
  | _ => value

/-- `_reject_retiming_review` -/
def rejectRetimingReview (value : Json) : Except ErrorDetails Json :=
  match value with
  | .obj fields =>
    match fields.lookup "task" with
    | some (.str task) =>
      if (task = "align" || task = "timestamp") &&
          (fields.lookup "speaker_review").any Json.truthy then
        .error ⟨[], .valueError s!"task={task} cannot retime speaker-review metadata"⟩
      else .ok value
    | _ => .ok value
  | _ => .ok value

/-- `int | None` with `ge=1` -/
def speakerCount : Decoder (Option ℤ) := nullable fun value =>
  match P.int value with
  | .error e => .error e
  | .ok n => if n < 1 then .error ⟨[], .tooSmall 1⟩ else .ok n

/-- `list[str] | None`, then `_clean_vocabulary` -/
def vocabularyField : Decoder (Option (List String)) := fun value =>
  match nullable (listOf P.str) value with
  | .error e => .error e
  | .ok terms => (cleanVocabulary terms).mapError fun message => ⟨[], .valueError message⟩

/-- The fields of the schema. -/
def decodeFields (fields : List (String × Json)) : Except ErrorDetails (RequestFields P.Url) := do
  let task ← fieldOr "task" .transcribe (literal JobTask.values) fields
  let sourceUrl ← fieldOr "source_url" none (nullable P.url) fields
  let language ← fieldOr "language" .auto (literal Language.values) fields
  let model ← fieldOr "model" none (nullable P.str) fields
  let diarize ← fieldOr "diarize" true P.bool fields
  let includeSpeakerReview ← fieldOr "include_speaker_review" false P.bool fields
  let webhookUrl ← fieldOr "webhook_url" none (nullable P.url) fields
  let words ← fieldOr "words" none (nullable (listOf (Word.decode P))) fields
  let segments ← fieldOr "segments" none (nullable (listOf (Segment.decode P))) fields
  let numSpeakers ← fieldOr "num_speakers" none (speakerCount P) fields
  let minSpeakers ← fieldOr "min_speakers" none (speakerCount P) fields
  let maxSpeakers ← fieldOr "max_speakers" none (speakerCount P) fields
  let vocabulary ← fieldOr "vocabulary" none (vocabularyField P) fields
  return { task, sourceUrl, language, model, diarize, includeSpeakerReview, webhookUrl, words,
           segments, numSpeakers, minSpeakers, maxSpeakers, vocabulary }

/-- The fields as `model_dump_json` writes them and `json.loads` reads them back. -/
def RequestFields.dump {P : Pydantic} (r : RequestFields P.Url) : List (String × Json) :=
  [("task", .str r.task.value),
    ("source_url", encOption (fun u => .str (P.urlText u)) r.sourceUrl),
    ("language", .str r.language.value),
    ("model", encOption .str r.model),
    ("diarize", .bool r.diarize),
    ("include_speaker_review", .bool r.includeSpeakerReview),
    ("webhook_url", encOption (fun u => .str (P.urlText u)) r.webhookUrl),
    ("words", encOption (fun l => .arr (l.map Word.dump)) r.words),
    ("segments", encOption (fun l => .arr (l.map Segment.dump)) r.segments),
    ("num_speakers", encOption (fun n : ℤ => .num (.finite n)) r.numSpeakers),
    ("min_speakers", encOption (fun n : ℤ => .num (.finite n)) r.minSpeakers),
    ("max_speakers", encOption (fun n : ℤ => .num (.finite n)) r.maxSpeakers),
    ("vocabulary", encOption (fun l => .arr (l.map .str)) r.vocabulary)]

/-- The strings of a request that are not of a fixed vocabulary. -/
def RequestFields.texts {P : Pydantic} (r : RequestFields P.Url) : List String :=
  r.sourceUrl.toList.map P.urlText ++ r.model.toList ++ r.webhookUrl.toList.map P.urlText ++
    (r.words.getD []).map Word.word ++ (r.segments.getD []).flatMap Segment.texts ++
    r.vocabulary.getD []

variable {P}

/-! ### What decoded fields satisfy -/

theorem cleanVocabulary_idem {v v' : Option (List String)} (h : cleanVocabulary v = .ok v') :
    cleanVocabulary v' = .ok v' := by
  cases v with
  | none => cases h; rfl
  | some value =>
      rw [cleanVocabulary] at h
      generalize hterms : (value.map pyStrip).filter (fun term => !term.isEmpty) = terms at h
      have hmem : ∀ term ∈ terms, pyStrip term = term ∧ (!term.isEmpty) = true := by
        rintro term ht
        rw [← hterms, List.mem_filter, List.mem_map] at ht
        obtain ⟨⟨t, -, rfl⟩, hne⟩ := ht
        exact ⟨pyStrip_pyStrip t, hne⟩
      have hagain : (terms.map pyStrip).filter (fun term => !term.isEmpty) = terms := by
        rw [List.map_congr_left fun t ht => (hmem t ht).1, List.map_id']
        exact List.filter_eq_self.mpr fun t ht => (hmem t ht).2
      -- the terms are what they would be cleaned to, so the same checks pass
      split at h
      · cases h; rfl
      · rename_i h₁
        split at h
        · cases h
        · rename_i h₂
          split at h
          · cases h
          · rename_i h₃
            split at h
            · cases h
            · rename_i h₄
              cases h
              rw [cleanVocabulary, hagain]
              simp only [h₁, h₂, h₃, h₄, if_false, Bool.false_eq_true]

theorem fieldOr_eq_ok {α : Type} {key : String} {d a : α} {dec : Decoder α}
    {fields : List (String × Json)} (h : fieldOr key d dec fields = .ok a) :
    a = d ∨ ∃ value, dec value = .ok a := by
  unfold fieldOr at h
  split at h
  · exact .inl (Except.ok.inj h).symm
  · rename_i value _
    refine .inr ⟨value, ?_⟩
    cases hd : dec value with
    | error e => rw [hd] at h; cases h
    | ok b => rw [hd] at h; exact h

theorem speakerCount_ge_one {value : Json} {o : Option ℤ} (h : speakerCount P value = .ok o) :
    ∀ n ∈ o, 1 ≤ n := by
  rintro n rfl
  unfold speakerCount nullable at h
  split at h
  · cases h
  · dsimp only at h
    split at h
    · cases h
    · split at h
      · cases h
      · rename_i hn
        cases h
        omega

theorem vocabularyField_clean {value : Json} {v : Option (List String)}
    (h : vocabularyField P value = .ok v) : cleanVocabulary v = .ok v := by
  unfold vocabularyField at h
  split at h
  · cases h
  · rename_i terms _
    cases hc : cleanVocabulary terms with
    | error e => rw [hc] at h; cases h
    | ok v' =>
        rw [hc] at h
        obtain rfl : v' = v := Except.ok.inj h
        exact cleanVocabulary_idem hc

/-- Decoded fields satisfy their own field constraints. -/
theorem decodeFields_valid {fields : List (String × Json)} {r : RequestFields P.Url}
    (h : decodeFields P fields = .ok r) :
    (∀ n ∈ r.numSpeakers.toList ++ r.minSpeakers.toList ++ r.maxSpeakers.toList, 1 ≤ n) ∧
      cleanVocabulary r.vocabulary = .ok r.vocabulary := by
  simp only [decodeFields, except_bind_eq_ok] at h
  obtain ⟨_, -, _, -, _, -, _, -, _, -, _, -, _, -, _, -, _, -, num, hnum, lo, hlo, hi, hhi, v, hv,
    h⟩ := h
  obtain rfl := Except.ok.inj h
  have count : ∀ {key : String} {o : Option ℤ},
      fieldOr key none (speakerCount P) fields = .ok o → ∀ n ∈ o, 1 ≤ n := by
    rintro key o ho
    rcases fieldOr_eq_ok ho with rfl | ⟨value, hvalue⟩
    · simp
    · exact speakerCount_ge_one hvalue
  refine ⟨fun n hn => ?_, ?_⟩
  · simp only [List.mem_append, Option.mem_toList] at hn
    rcases hn with (hn | hn) | hn
    · exact count hnum n hn
    · exact count hlo n hn
    · exact count hhi n hn
  · rcases fieldOr_eq_ok hv with rfl | ⟨value, hvalue⟩
    · rfl
    · exact vocabularyField_clean hvalue

variable (P)

/-- `JobRequest.model_validate` -/
def modelValidate (value : Json) : Except ErrorDetails (JobRequest P) :=
  match rejectRetimingReview (timestampNeverDiarizes value) with
  | .error e => .error e
  | .ok (.obj fields) =>
    match h : decodeFields P fields with
    | .error e => .error e
    | .ok r =>
      match ht : r.validateTask with
      | some message => .error ⟨[], .valueError message⟩
      | none => .ok ⟨r, (decodeFields_valid h).1, (decodeFields_valid h).2, ht⟩
  | .ok _ => .error ⟨[], .notDict⟩

end Validate

section Dump

variable {P : Pydantic} (request : JobRequest P)

/-- The value `model_dump_json` writes, if it can. -/
def JobRequest.json : Json := .obj request.fields.dump

/-- `model_dump_json`; missing where it raises, on a text it cannot encode. -/
def JobRequest.modelDumpJson : Option Json :=
  if request.fields.texts.all P.encodes then some request.json else none

/-- The value of the column `request_json`; missing where `jsonb` refuses it. -/
def JobRequest.requestJson : Option Json := request.modelDumpJson.bind Json.jsonb

end Dump

end Vemsa.Jobs
