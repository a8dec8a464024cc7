import Vemsa.Jobs.JobRequest

/-!
# Jobs — Codec

What is stored as JSON and read back: results, and requests.  Everything that can be stored reloads,
except a float that is not finite, which is written as `null`.

* `requestJson_eq_some`, `resultJson_eq_some`: what can be stored is what has no text that UTF-8 cannot
  encode and none with U+0000 in it.
* `reloads_word`, `reloads_segment`: a transcript reloads when its floats are finite.
* `reloads_result`: so does a result; its speaker review always reloads.
* `modelValidate_json`: a request is accepted again, as itself, exactly when the words and
  segments it carries reload.
* `modelValidate_isOk`: it is accepted at all exactly when the bounds of those are finite.
-/

namespace Vemsa.Jobs
open Vemsa.Support

/-! ### Results -/

section Decode

variable (P : Pydantic)

/-- `float` with a lower bound and `allow_inf_nan=False` -/
def boundedFloat (p : ℚ → Prop) [DecidablePred p] (issue : Issue) : Decoder {q : ℚ // p q} :=
  fun value => do
    match ← P.float value with
    | .finite q => if h : p q then return ⟨q, h⟩ else throw ⟨[], issue⟩
    | _ => throw ⟨[], .notFinite⟩

/-- `int` with `ge=2` -/
def atLeastTwo : Decoder {n : ℕ // 2 ≤ n} := fun value => do
  let n ← P.int value
  if h : 2 ≤ n then return ⟨n.toNat, by omega⟩ else throw ⟨[], .tooSmall 2⟩

/-- `SpeechOverlap.model_validate` -/
def SpeechOverlap.decode : Decoder SpeechOverlap := dict fun fields => do
  let id ← field "id" P.str fields
  let ⟨start, start_nonneg⟩ ← field "start" (boundedFloat P (0 ≤ ·) (.tooSmall 0)) fields
  let ⟨stop, _⟩ ← field "end" (boundedFloat P (0 < ·) (.notAbove 0)) fields
  let ⟨detectedSpeakerCount, two_le_count⟩ ← field "detected_speaker_count" (atLeastTwo P) fields
  if start_lt_stop : start < stop then
    return { id, start, stop, detectedSpeakerCount, start_nonneg, start_lt_stop, two_le_count }
  else throw ⟨[], .valueError "overlap end must be greater than start"⟩

/-- `SpeechOverlap.model_dump_json` -/
def SpeechOverlap.dump (o : SpeechOverlap) : Json :=
  .obj [("id", .str o.id), ("start", .num (.finite o.start)), ("end", .num (.finite o.stop)),
    ("detected_speaker_count", .num (.finite o.detectedSpeakerCount))]

/-- `Literal[1]` -/
def versionOne : Decoder Unit
  | .num (.finite q) => if q = 1 then .ok () else .error ⟨[], .notLiteral ["1"]⟩
  | _ => .error ⟨[], .notLiteral ["1"]⟩

/-- `SpeakerReview.model_validate` -/
def SpeakerReview.decode : Decoder SpeakerReview := dict fun fields => do
  let _ ← fieldOr "version" () versionOne fields
  let overlapDetection ← field "overlap_detection" (literal OverlapDetection.values) fields
  let overlaps ← fieldOr "overlaps" [] (listOf (SpeechOverlap.decode P)) fields
  if none_of_unavailable : overlapDetection = .unavailable → overlaps = [] then
    if ids_nodup : (overlaps.map SpeechOverlap.id).Nodup then
      if ordered : overlaps.IsChain fun a b => a.stop ≤ b.start then
        return { overlapDetection, overlaps, none_of_unavailable, ids_nodup, ordered }
      else throw ⟨[], .valueError "overlap intervals must be ordered and non-overlapping"⟩
    else throw ⟨[], .valueError "overlap IDs must be unique within the result"⟩
  else throw ⟨[], .valueError "unavailable overlap detection cannot provide overlaps"⟩

/-- `SpeakerReview.model_dump_json` -/
def SpeakerReview.dump (r : SpeakerReview) : Json :=
  .obj [("version", .num (.finite 1)), ("overlap_detection", .str r.overlapDetection.value),
    ("overlaps", .arr (r.overlaps.map SpeechOverlap.dump))]

/-- `TranscriptionResult.model_validate_json` -/
def TranscriptionResult.decode : Decoder (TranscriptionResult PyFloat) := dict fun fields => do
  let language ← field "language" P.str fields
  let durationSeconds ← field "duration_seconds" P.float fields
  let model ← field "model" P.str fields
  let text ← field "text" P.str fields
  let segments ← field "segments" (listOf (Segment.decode P)) fields
  let alignment ← fieldOr "alignment" none (nullable (literal Alignment.values)) fields
  let speakerReview ← fieldOr "speaker_review" none (nullable (SpeakerReview.decode P)) fields
  return { language, durationSeconds, model, text, segments, alignment, speakerReview }

/-- `TranscriptionResult.model_dump_json` -/
def TranscriptionResult.dump (r : TranscriptionResult PyFloat) : Json :=
  .obj [("language", .str r.language), ("duration_seconds", .ofFloat r.durationSeconds),
    ("model", .str r.model), ("text", .str r.text),
    ("segments", .arr (r.segments.map Segment.dump)),
    ("alignment", encOption (fun a => .str a.value) r.alignment),
    ("speaker_review", encOption SpeakerReview.dump r.speakerReview)]

end Decode

/-- The strings of a result that are not of a fixed vocabulary. -/
def TranscriptionResult.texts (r : TranscriptionResult PyFloat) : List String :=
  [r.language, r.model, r.text] ++ r.segments.flatMap Segment.texts ++
    r.speakerReview.toList.flatMap fun review => review.overlaps.map SpeechOverlap.id

/-- `model_dump_json`; missing where it raises, on a text it cannot encode. -/
def TranscriptionResult.modelDumpJson (P : Pydantic) (r : TranscriptionResult PyFloat) : Option Json :=
  if r.texts.all P.encodes then some r.dump else none

/-- The value of the column `result_json`; missing where `jsonb` refuses it. -/
def TranscriptionResult.resultJson (P : Pydantic) (r : TranscriptionResult PyFloat) : Option Json :=
  (r.modelDumpJson P).bind Json.jsonb

/-! ### Texts -/

/-- UTF-8 has bytes for every text, and none has U+0000 in it. -/
def Pydantic.Storable (P : Pydantic) (texts : List String) : Prop :=
  ∀ text ∈ texts, P.encodes text ∧ Json.hasNul text = false

instance (P : Pydantic) (texts : List String) : Decidable (P.Storable texts) :=
  inferInstanceAs (Decidable (∀ text ∈ texts, P.encodes text ∧ Json.hasNul text = false))

section Texts

variable {P : Pydantic}

theorem any_toList_getD {α : Type} (p : α → Bool) (o : Option (List α)) :
    (o.toList.any fun l => l.any p) = (o.getD []).any p := by
  cases o <;> simp

theorem any_toList_false {α : Type} (o : Option α) : (o.toList.any fun _ => false) = false := by
  cases o <;> rfl

theorem Segment.any_texts (s : Segment PyFloat) :
    s.dump.texts.any Json.hasNul = s.texts.any Json.hasNul := by
  have hattribution : ∀ a : SpeakerAttribution, Json.hasNul a.value = false := by
    rintro (_ | _ | _) <;> decide
  simp [Segment.dump, Segment.texts, Word.dump, List.any_flatMap, hattribution, Function.comp_def,
    any_toList_false]

theorem JobRequest.any_texts (request : JobRequest P) :
    request.json.texts.any Json.hasNul = request.fields.texts.any Json.hasNul := by
  have htask : ∀ t : JobTask, Json.hasNul t.value = false := by rintro (_ | _ | _ | _) <;> decide
  have hlanguage : ∀ l : Language, Json.hasNul l.value = false := by rintro (_ | _ | _) <;> decide
  simp [JobRequest.json, RequestFields.dump, RequestFields.texts, List.any_flatMap, htask, hlanguage,
    Word.dump, Segment.any_texts, Function.comp_def, any_toList_false, any_toList_getD]

theorem TranscriptionResult.any_texts (result : TranscriptionResult PyFloat) :
    result.dump.texts.any Json.hasNul = result.texts.any Json.hasNul := by
  have halignment : ∀ a : Alignment, Json.hasNul a.value = false := by
    rintro (_ | _ | _ | _) <;> decide
  have hdetection : ∀ d : OverlapDetection, Json.hasNul d.value = false := by
    rintro (_ | _) <;> decide
  simp [TranscriptionResult.dump, TranscriptionResult.texts, SpeakerReview.dump, SpeechOverlap.dump,
    List.any_flatMap, halignment, hdetection, Segment.any_texts, Function.comp_def, any_toList_false]

theorem Pydantic.storable_iff {texts : List String} : P.Storable texts ↔
    texts.all P.encodes = true ∧ texts.any Json.hasNul = false := by
  simp [Pydantic.Storable, forall_and]

theorem bind_jsonb_eq_some {texts : List String} {value json : Json}
    (htexts : value.texts.any Json.hasNul = texts.any Json.hasNul) :
    (if texts.all P.encodes then some value else none).bind Json.jsonb = some json ↔
      P.Storable texts ∧ json = value := by
  rw [Pydantic.storable_iff, ← htexts]
  by_cases hencodes : texts.all P.encodes = true
  · rw [if_pos hencodes, Option.bind_some, Json.jsonb]
    cases hnul : value.texts.any Json.hasNul <;> simp [hencodes, eq_comm]
  · simp [hencodes]

/-- **A request can be stored exactly when its texts can.** -/
theorem requestJson_eq_some {request : JobRequest P} {json : Json} :
    request.requestJson = some json ↔ P.Storable request.fields.texts ∧ json = request.json :=
  bind_jsonb_eq_some request.any_texts

/-- **A result can be stored exactly when its texts can.** -/
theorem resultJson_eq_some {result : TranscriptionResult PyFloat} {json : Json} :
    result.resultJson P = some json ↔ P.Storable result.texts ∧ json = result.dump :=
  bind_jsonb_eq_some result.any_texts

end Texts

/-! ### Finite floats -/

def Word.Finite (w : Word PyFloat) : Prop :=
  w.start.isFinite ∧ w.stop.isFinite ∧ ∀ x ∈ w.probability, x.isFinite

def Segment.Finite (s : Segment PyFloat) : Prop :=
  s.start.isFinite ∧ s.stop.isFinite ∧ ∀ w ∈ s.words, w.Finite

def TranscriptionResult.Finite (r : TranscriptionResult PyFloat) : Prop :=
  r.durationSeconds.isFinite ∧ ∀ s ∈ r.segments, s.Finite

instance (w : Word PyFloat) : Decidable w.Finite :=
  inferInstanceAs (Decidable (w.start.isFinite ∧ w.stop.isFinite ∧ ∀ x ∈ w.probability, x.isFinite))

instance (s : Segment PyFloat) : Decidable s.Finite :=
  inferInstanceAs (Decidable (s.start.isFinite ∧ s.stop.isFinite ∧ ∀ w ∈ s.words, w.Finite))

instance (r : TranscriptionResult PyFloat) : Decidable r.Finite :=
  inferInstanceAs (Decidable (r.durationSeconds.isFinite ∧ ∀ s ∈ r.segments, s.Finite))

/-- No float of the transcript a request carries is infinite or `NaN`. -/
def RequestFields.Finite {Url : Type} (r : RequestFields Url) : Prop :=
  (∀ w ∈ r.words.getD [], w.Finite) ∧ ∀ s ∈ r.segments.getD [], s.Finite

instance {Url : Type} (r : RequestFields Url) : Decidable r.Finite :=
  inferInstanceAs (Decidable ((∀ w ∈ r.words.getD [], w.Finite) ∧ ∀ s ∈ r.segments.getD [], s.Finite))

/-! ### Finite bounds -/

def Word.Timed (w : Word PyFloat) : Prop := w.start.isFinite ∧ w.stop.isFinite

def Segment.Timed (s : Segment PyFloat) : Prop :=
  s.start.isFinite ∧ s.stop.isFinite ∧ ∀ w ∈ s.words, w.Timed

/-- Every bound in the transcript a request carries is finite. -/
def RequestFields.Timed {Url : Type} (r : RequestFields Url) : Prop :=
  (∀ w ∈ r.words.getD [], w.Timed) ∧ ∀ s ∈ r.segments.getD [], s.Timed

instance (w : Word PyFloat) : Decidable w.Timed :=
  inferInstanceAs (Decidable (w.start.isFinite ∧ w.stop.isFinite))

instance (s : Segment PyFloat) : Decidable s.Timed :=
  inferInstanceAs (Decidable (s.start.isFinite ∧ s.stop.isFinite ∧ ∀ w ∈ s.words, w.Timed))

instance {Url : Type} (r : RequestFields Url) : Decidable r.Timed :=
  inferInstanceAs (Decidable ((∀ w ∈ r.words.getD [], w.Timed) ∧ ∀ s ∈ r.segments.getD [], s.Timed))

/-- What is written of a probability that is not finite is what is written of none. -/
def Word.stored (w : Word PyFloat) : Word PyFloat :=
  { w with probability := w.probability.filter PyFloat.isFinite }

def Segment.stored (s : Segment PyFloat) : Segment PyFloat := { s with words := s.words.map Word.stored }

def RequestFields.stored {Url : Type} (r : RequestFields Url) : RequestFields Url :=
  { r with
    words := r.words.map (List.map Word.stored), segments := r.segments.map (List.map Segment.stored) }

theorem Word.dump_stored (w : Word PyFloat) : w.stored.dump = w.dump := by
  obtain ⟨word, start, stop, _ | x⟩ := w
  · rfl
  · cases hx : x.isFinite <;> simp [Word.stored, Word.dump, Option.filter, hx, encOption, Json.ofFloat]

theorem Segment.dump_stored (s : Segment PyFloat) : s.stored.dump = s.dump := by
  simp [Segment.stored, Segment.dump, Word.dump_stored]

theorem RequestFields.dump_stored {P : Pydantic} (r : RequestFields P.Url) :
    r.stored.dump = r.dump := by
  have hwords : ∀ o : Option (List (Word PyFloat)),
      encOption (fun l => .arr (l.map Word.dump)) (o.map (List.map Word.stored)) =
        encOption (fun l => .arr (l.map Word.dump)) o := by
    rintro (_ | l) <;> simp [encOption, Word.dump_stored]
  have hsegments : ∀ o : Option (List (Segment PyFloat)),
      encOption (fun l => .arr (l.map Segment.dump)) (o.map (List.map Segment.stored)) =
        encOption (fun l => .arr (l.map Segment.dump)) o := by
    rintro (_ | l) <;> simp [encOption, Segment.dump_stored]
  simp only [RequestFields.dump, RequestFields.stored, hwords, hsegments]

theorem Word.finite_stored {w : Word PyFloat} : w.stored.Finite ↔ w.Timed := by
  simp [Word.stored, Word.Finite, Word.Timed, Option.filter_eq_some_iff]

theorem Segment.finite_stored {s : Segment PyFloat} : s.stored.Finite ↔ s.Timed := by
  simp [Segment.stored, Segment.Finite, Segment.Timed, Word.finite_stored]

theorem RequestFields.finite_stored {Url : Type} {r : RequestFields Url} : r.stored.Finite ↔ r.Timed := by
  obtain ⟨_, _, _, _, _, _, _, _ | l, _ | l', _, _, _, _⟩ := r <;>
    simp [RequestFields.stored, RequestFields.Finite, RequestFields.Timed, Word.finite_stored,
      Segment.finite_stored]

/-- The validators look at no probability. -/
theorem RequestFields.validateTask_stored {Url : Type} (r : RequestFields Url) :
    r.stored.validateTask = r.validateTask := by
  have hsegments : r.stored.segments.getD [] = (r.segments.getD []).map Segment.stored := by
    rcases r with ⟨_, _, _, _, _, _, _, _, _ | l, _, _, _, _⟩ <;> rfl
  have hwords : r.stored.words.getD [] = (r.words.getD []).map Word.stored := by
    rcases r with ⟨_, _, _, _, _, _, _, _ | l, _, _, _, _, _⟩ <;> rfl
  have hspans : r.stored.spans = r.spans := by
    simp [spans, hsegments, hwords, Function.comp_def, Word.stored, Segment.stored]
  have hany : ∀ p : Segment PyFloat → Bool, (∀ s : Segment PyFloat, p s.stored = p s) →
      (r.stored.segments.getD []).any p = (r.segments.getD []).any p := fun p hp => by
    rw [hsegments, List.any_map]
    exact congrArg _ (funext hp)
  have hempty : (r.stored.segments.getD []).isEmpty = (r.segments.getD []).isEmpty := by
    rw [hsegments, List.isEmpty_map]
  have hwordsEmpty : (r.stored.words.getD []).isEmpty = (r.words.getD []).isEmpty := by
    rw [hwords, List.isEmpty_map]
  have hwordsSome : r.stored.words.isSome = r.words.isSome := Option.isSome_map
  have hsegmentsSome : r.stored.segments.isSome = r.segments.isSome := Option.isSome_map
  have hinner : ∀ s : Segment PyFloat, (!s.stored.words.isEmpty) = !s.words.isEmpty := fun s => by
    rw [Segment.stored, List.isEmpty_map]
  unfold validateTask
  dsimp only
  rw [hspans, hempty, hwordsEmpty, hwordsSome, hsegmentsSome, hany _ fun _ => rfl, hany _ hinner,
    hany _ fun _ => rfl, hany _ fun _ => rfl]
  rfl

/-! ### Reloading -/

section Reload

variable {P : Pydantic} (hP : P.Lawful)
include hP

/-- **A float reloads when it is finite.** -/
theorem reloads_float {x : PyFloat} : Reloads Json.ofFloat P.float x ↔ x.isFinite := by
  unfold Reloads Json.ofFloat
  split
  · simp [hP.float_num, *]
  · simp [hP.float_null, *]

theorem reloads_word {w : Word PyFloat} : Reloads Word.dump (Word.decode P) w ↔ w.Finite := by
  obtain ⟨word, start, stop, probability⟩ := w
  have hprob := reloads_nullable (e := Json.ofFloat) hP.float_null (o := probability)
  simp only [Word.Finite, ← reloads_float hP, ← hprob]
  simp only [Reloads, Word.dump, Word.decode, dict, except_bind_eq_ok, field_eq_ok, fieldOr]
  simp [List.lookup, under_eq_ok, hP.str_str, pure, Except.pure]

theorem reloads_str (s : String) : Reloads .str P.str s := hP.str_str s

theorem reloads_segment {s : Segment PyFloat} :
    Reloads Segment.dump (Segment.decode P) s ↔ s.Finite := by
  obtain ⟨start, stop, speaker, text, words, attribution, overlapIds⟩ := s
  have hwords := reloads_list (e := Word.dump) (d := Word.decode P) (l := words)
  have hspeaker := (reloads_nullable (e := .str) hP.str_null (o := speaker)).mpr fun a _ =>
    reloads_str hP a
  have hattribution : nullable (literal SpeakerAttribution.values)
      (encOption (fun a => .str a.value) attribution) = .ok attribution := by
    rcases attribution with _ | _ | _ | _ <;> rfl
  have hids := (reloads_list (e := .str) (d := P.str)).mpr fun a (_ : a ∈ overlapIds) =>
    reloads_str hP a
  simp only [reloads_word hP] at hwords
  simp only [Segment.Finite, ← reloads_float hP, ← hwords]
  simp only [Reloads, Segment.dump, Segment.decode, dict, except_bind_eq_ok, field_eq_ok, fieldOr]
    at hids hspeaker ⊢
  simp [List.lookup, under_eq_ok, hP.str_str, pure, Except.pure, hspeaker, hattribution, hids]

/-! ### Results -/

theorem reloads_overlap (o : SpeechOverlap) :
    Reloads SpeechOverlap.dump (SpeechOverlap.decode P) o := by
  obtain ⟨id, start, stop, count, h₀, hlt, hcount⟩ := o
  have hstop : 0 < stop := lt_of_le_of_lt h₀ hlt
  have hint : P.int (.num (.finite count)) = .ok (count : ℤ) := hP.int_num count
  simp only [Reloads, SpeechOverlap.dump, SpeechOverlap.decode, dict, field, List.lookup]
  simp [under, Except.mapError, bind, Except.bind, boundedFloat, atLeastTwo, hP.str_str,
    hP.float_num, hint, pure, Except.pure, h₀, hstop, hlt, hcount]

theorem reloads_review (r : SpeakerReview) :
    Reloads SpeakerReview.dump (SpeakerReview.decode P) r := by
  obtain ⟨detection, overlaps, hnone, hnodup, hordered⟩ := r
  have hoverlaps := (reloads_list (e := SpeechOverlap.dump)).mpr
    fun o (_ : o ∈ overlaps) => reloads_overlap hP o
  have hdetection : literal OverlapDetection.values (.str detection.value) = .ok detection := by
    cases detection <;> rfl
  simp only [Reloads, SpeakerReview.dump, SpeakerReview.decode, dict, field, fieldOr, List.lookup]
    at hoverlaps ⊢
  simp [under, Except.mapError, bind, Except.bind, versionOne, hdetection, hoverlaps, pure,
    Except.pure, hnodup, hordered]
  exact dif_pos hnone

/-- **A result reloads when its floats are finite.** -/
theorem reloads_result {r : TranscriptionResult PyFloat} :
    Reloads TranscriptionResult.dump (TranscriptionResult.decode P) r ↔ r.Finite := by
  obtain ⟨language, duration, model, text, segments, alignment, review⟩ := r
  have hsegments := reloads_list (e := Segment.dump) (d := Segment.decode P) (l := segments)
  have halignment : nullable (literal Alignment.values)
      (encOption (fun a => .str a.value) alignment) = .ok alignment := by
    rcases alignment with _ | _ | _ | _ | _ <;> rfl
  have hreview := (reloads_nullable (e := SpeakerReview.dump) (d := SpeakerReview.decode P)
    (fun a => by simp [SpeakerReview.decode, dict]) (o := review)).mpr fun a _ =>
      reloads_review hP a
  simp only [reloads_segment hP] at hsegments
  simp only [TranscriptionResult.Finite, ← reloads_float hP, ← hsegments]
  simp only [Reloads, TranscriptionResult.dump, TranscriptionResult.decode, dict,
    except_bind_eq_ok, field_eq_ok, fieldOr] at hreview ⊢
  simp [List.lookup, under_eq_ok, hP.str_str, pure, Except.pure, halignment, hreview]

/-! ### Requests -/

theorem speakerCount_reloads {o : Option ℤ} (h : ∀ n ∈ o, 1 ≤ n) :
    speakerCount P (encOption (fun n : ℤ => .num (.finite n)) o) = .ok o := by
  cases o with
  | none => rfl
  | some n =>
      have hn : ¬ n < 1 := not_lt.mpr (h n rfl)
      simp [speakerCount, encOption, nullable, hP.int_num, hn, Except.map]

theorem vocabularyField_reloads {v : Option (List String)} (h : cleanVocabulary v = .ok v) :
    vocabularyField P (encOption (fun l => .arr (l.map .str)) v) = .ok v := by
  have hlist : nullable (listOf P.str) (encOption (fun l => .arr (l.map .str)) v) = .ok v :=
    (reloads_nullable (fun _ => by simp [listOf])).mpr fun l _ =>
      reloads_list.mpr fun s _ => reloads_str hP s
  rw [vocabularyField, hlist]
  simp [h, Except.mapError]

/-- The fields of a request reload when its floats are finite. -/
theorem decodeFields_dump (r : JobRequest P) :
    decodeFields P r.fields.dump = .ok r.fields ↔ r.fields.Finite := by
  obtain ⟨⟨task, sourceUrl, language, model, diarize, review, webhookUrl, words, segments, num, lo,
    hi, vocabulary⟩, hge, hclean, -⟩ := r
  simp only [List.mem_append, Option.mem_toList] at hge hclean
  have hurl : ∀ u : Option P.Url,
      nullable P.url (encOption (fun u => .str (P.urlText u)) u) = .ok u := fun u =>
    (reloads_nullable hP.url_null).mpr fun u _ => hP.url_urlText u
  have htask : literal JobTask.values (.str task.value) = .ok task := by cases task <;> rfl
  have hlanguage : literal Language.values (.str language.value) = .ok language := by
    cases language <;> rfl
  have hmodel := (reloads_nullable (e := .str) hP.str_null (o := model)).mpr fun a _ =>
    reloads_str hP a
  have hwords := reloads_nullable (e := fun l : List (Word PyFloat) => .arr (l.map Word.dump))
    (d := listOf (Word.decode P)) (fun a => by simp [listOf]) (o := words)
  have hsegments := reloads_nullable
    (e := fun l : List (Segment PyFloat) => .arr (l.map Segment.dump))
    (d := listOf (Segment.decode P)) (fun a => by simp [listOf]) (o := segments)
  have hnum := speakerCount_reloads hP fun n hn => hge n (.inl (.inl hn))
  have hlo := speakerCount_reloads hP fun n hn => hge n (.inl (.inr hn))
  have hhi := speakerCount_reloads hP fun n hn => hge n (.inr hn)
  have hvocabulary := vocabularyField_reloads hP hclean
  simp only [reloads_list, reloads_word hP, reloads_segment hP] at hwords hsegments
  have hfinite : ∀ t : RequestFields P.Url, t.Finite ↔
      (∀ l ∈ t.words, ∀ w ∈ l, w.Finite) ∧ ∀ l ∈ t.segments, ∀ s ∈ l, s.Finite := by
    rintro ⟨_, _, _, _, _, _, _, _ | l, _ | l', _, _, _, _⟩ <;> simp [RequestFields.Finite]
  simp only [hfinite, ← hwords, ← hsegments]
  simp only [Reloads, RequestFields.dump, decodeFields, except_bind_eq_ok, fieldOr] at hmodel ⊢
  simp [List.lookup, under_eq_ok, hP.bool_bool, pure, Except.pure, htask, hlanguage, hmodel, hurl,
    hnum, hlo, hhi, hvocabulary]

omit hP in
/-- The before-validators let a stored request through as it is. -/
theorem before_validators_dump (request : JobRequest P) :
    rejectRetimingReview (timestampNeverDiarizes request.json) =
      .ok request.json := by
  have hstamp : timestampNeverDiarizes request.json = request.json := by
    simp [timestampNeverDiarizes, JobRequest.json, RequestFields.dump, List.lookup]
  rw [hstamp]
  simp [rejectRetimingReview, JobRequest.json, RequestFields.dump, List.lookup]

/-- **A stored request is accepted again, as itself, exactly when its floats are finite.** -/
theorem modelValidate_json (request : JobRequest P) :
    modelValidate P request.json = .ok request ↔ request.fields.Finite := by
  rw [← decodeFields_dump hP, modelValidate, before_validators_dump, JobRequest.json]
  dsimp only
  constructor
  · intro h
    split at h
    · cases h
    · rename_i r hr
      split at h
      · cases h
      · rw [hr, ← Except.ok.inj h]
  · intro h
    split
    · rename_i e he
      rw [h] at he
      cases he
    · rename_i r hr
      obtain rfl := Except.ok.inj (h.symm.trans hr)
      split
      · rename_i message hm
        rw [request.task_valid] at hm
        cases hm
      · rfl

/-! ### Requests that can be read at all -/

theorem float_ofFloat {x y : PyFloat} (h : P.float (.ofFloat x) = .ok y) : x.isFinite := by
  unfold Json.ofFloat at h
  split at h
  · assumption
  · exact absurd h (hP.float_null y)

theorem Word.timed_of_decode {w w' : Word PyFloat} (h : Word.decode P w.dump = .ok w') : w.Timed := by
  obtain ⟨word, start, stop, probability⟩ := w
  simp only [Word.dump, Word.decode, dict, except_bind_eq_ok, field_eq_ok] at h
  obtain ⟨_, -, _, ⟨_, hs, hstart⟩, _, ⟨_, ht, hstop⟩, -⟩ := h
  obtain rfl := Option.some.inj hs
  obtain rfl := Option.some.inj ht
  exact ⟨float_ofFloat hP hstart, float_ofFloat hP hstop⟩

theorem Segment.timed_of_decode {s s' : Segment PyFloat} (h : Segment.decode P s.dump = .ok s') :
    s.Timed := by
  obtain ⟨start, stop, speaker, text, words, attribution, overlapIds⟩ := s
  simp only [Segment.dump, Segment.decode, dict, except_bind_eq_ok, field_eq_ok, fieldOr] at h
  obtain ⟨_, ⟨_, hs, hstart⟩, _, ⟨_, ht, hstop⟩, _, -, _, -, ws, hwords, -⟩ := h
  obtain rfl := Option.some.inj hs
  obtain rfl := Option.some.inj ht
  exact ⟨float_ofFloat hP hstart, float_ofFloat hP hstop,
    forall_of_listFrom (fun _ _ => Word.timed_of_decode hP) 0 words (under_eq_ok.mp hwords)⟩

theorem RequestFields.timed_of_decode {r r' : RequestFields P.Url}
    (h : decodeFields P r.dump = .ok r') : r.Timed := by
  simp only [RequestFields.dump, decodeFields, except_bind_eq_ok, fieldOr] at h
  obtain ⟨_, -, _, -, _, -, _, -, _, -, _, -, _, -, _, hwords, _, hsegments, -⟩ := h
  exact ⟨forall_of_nullable_listOf (fun _ _ => Word.timed_of_decode hP) (under_eq_ok.mp hwords),
    forall_of_nullable_listOf (fun _ _ => Segment.timed_of_decode hP) (under_eq_ok.mp hsegments)⟩

/-- **A stored request can be read at all exactly when its bounds are finite**; a probability that
is not is read as none. -/
theorem modelValidate_isOk (request : JobRequest P) :
    (∃ r, modelValidate P request.json = .ok r) ↔ request.fields.Timed := by
  constructor
  · rintro ⟨r, h⟩
    rw [modelValidate, before_validators_dump, JobRequest.json] at h
    dsimp only at h
    split at h
    · cases h
    · rename_i r' hr
      exact RequestFields.timed_of_decode hP hr
  · intro ht
    let stored : JobRequest P := ⟨request.fields.stored, request.ge_one, request.vocabulary_clean,
      (RequestFields.validateTask_stored request.fields).trans request.task_valid⟩
    have hdump : request.json = stored.json :=
      congrArg Json.obj (RequestFields.dump_stored request.fields).symm
    rw [hdump]
    exact ⟨stored, (modelValidate_json hP stored).mpr (RequestFields.finite_stored.mpr ht)⟩

end Reload

end Vemsa.Jobs
