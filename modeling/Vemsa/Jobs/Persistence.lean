import Vemsa.Jobs.Lifecycle

/-!
# Jobs — Persistence

What is stored can be read again: a request by `rowToJob`, for every claim, `get`, `cancel` and
purge, and a result by `getResult`.  Every row of a run holds what was stored of the request it was
submitted with, and a completed one what was stored of the result `finish` was given (`stored_request`,
`stored_result`), so both come down to whether a value can be stored, and whether it then reloads.

It can be stored when its texts can: `model_dump_json` raises on a lone surrogate, and `jsonb` refuses
U+0000.  It reloads when the floats in it are finite: a `NaN` passes validation, since every comparison
with it is false, and is dumped as `null`, which validation rejects.
-/

namespace Vemsa.Jobs
open Vemsa.Support

section Stored

variable {P : Pydantic} {j : JobId} {h : StoreLog P} {s : Db} {row row' : Row}

/-- A row that was not there holds what is stored of the request it was submitted with. -/
theorem stored_of_created {c : Call P} {db db' : Db} {r : Reply P} (hstep : c.step db = some (db', r))
    (hnone : db.tables.jobs.get? j = none) (hsome : db'.tables.jobs.get? j = some row) :
    ∃ new a b, c = .create new a b ∧ row = new.job.row ∧
      new.request.requestJson = some row.requestJson := by
  obtain ⟨-, -, new, a, b, rfl, rfl⟩ := not_drawn_of_created hstep hnone hsome
  obtain ⟨-, -, htables | ⟨-, htexts, -⟩⟩ := create_step hstep
  · rw [htables, hnone] at hsome
    cases hsome
  · exact ⟨new, a, b, rfl, rfl, requestJson_eq_some.mpr ⟨htexts, rfl⟩⟩

/-- **Every row holds the request it was submitted with.** -/
theorem stored_request (run : (storeMachine P).Run h s) (hrow : s.tables.jobs.get? j = some row) :
    ∃ x ∈ h, ∃ new a b, x.event = .create new a b ∧ new.id = j ∧
      new.request.requestJson = some row.requestJson := by
  refine Machine.Run.invariant (M := storeMachine P)
    (I := fun h s => ∀ row, s.tables.jobs.get? j = some row → ∃ x ∈ h, ∃ new a b,
      x.event = .create new a b ∧ new.id = j ∧ new.request.requestJson = some row.requestJson)
    (fun _ hj => by cases hj) ?_ run row hrow
  intro h s c s' r _ ih hstep row' hrow'
  cases hb : s.tables.jobs.get? j with
  | none =>
      obtain ⟨new, a, b, rfl, rfl, hstored⟩ := stored_of_created hstep hb hrow'
      exact ⟨_, List.mem_append_right _ (List.mem_singleton_self _), new, a, b, rfl,
        show new.job.row.id = j from Table.key_of_get? hrow', hstored⟩
  | some row =>
      obtain ⟨x, hx, new, a, b, hevent, hid, hjson⟩ := ih row hb
      have hc := change_step hstep j
      rw [hb, hrow'] at hc
      exact ⟨x, List.mem_append_left _ hx, new, a, b, hevent, hid,
        hjson.trans (congrArg some hc.immutable.2.2.1.symm)⟩

/-- Only `finish` writes a result. -/
theorem resultJson_onRow {c : Call P} (hc : c.onRow row = some row') :
    row'.resultJson = row.resultJson ∨
    ∃ k result w url outcome stamp now, c = .finish k result w url outcome stamp now ∧
      c.hit row = true ∧ row'.resultJson = some result.dump := by
  cases c with
  | purgeOlderThan cutoff =>
      rw [Call.onRow] at hc
      split at hc
      · cases hc
      · rw [Option.some.inj hc]
        exact .inl rfl
  | _ =>
      obtain rfl := Option.some.inj hc
      split
      · rename_i hhit
        first
          | exact .inl rfl
          | exact .inr ⟨_, _, _, _, _, _, _, rfl, hhit, rfl⟩
      · exact .inl rfl

/-- **A result is the one that `finish` was given.** -/
theorem stored_result (run : (storeMachine P).Run h s) (hrow : s.tables.jobs.get? j = some row)
    {json : Json} (hjson : row.resultJson = some json) :
    ∃ x ∈ h, ∃ result w url outcome stamp now,
      x.event = .finish j result w url outcome stamp now ∧ x.reply.positive = true ∧
        result.resultJson P = some json := by
  refine Machine.Run.invariant (M := storeMachine P)
    (I := fun h s => ∀ row, s.tables.jobs.get? j = some row → row.resultJson = some json →
      ∃ x ∈ h, ∃ result w url outcome stamp now, x.event = .finish j result w url outcome stamp now ∧
        x.reply.positive = true ∧ result.resultJson P = some json)
    (fun _ hj => by cases hj) ?_ run row hrow hjson
  intro h s c s' r _ ih hstep row' hrow' hjson
  have hcall : c.step s = some (s', r) := hstep
  rcases get?_step hcall j with hget | ⟨new, a, b, rfl, -, -, -, hget⟩
  · rw [hrow'] at hget
    obtain ⟨row, hb, hon⟩ := Option.bind_eq_some_iff.mp hget.symm
    rcases resultJson_onRow hon with hsame | ⟨k, result, w, url, o, stamp, now, rfl, hhit, hset⟩
    · obtain ⟨x, hx, hrest⟩ := ih row hb (hsame ▸ hjson)
      exact ⟨x, List.mem_append_left _ hx, hrest⟩
    · obtain rfl : k = j := (Call.id_of_hit rfl hhit).symm.trans (Table.key_of_get? hb)
      have htexts : P.Storable result.texts := by
        obtain ⟨x, hfinish, -⟩ := Option.map_eq_some_iff.mp hcall
        exact (finish_eq_some hfinish).1
      refine ⟨_, List.mem_append_right _ (List.mem_singleton_self _), result, w, url, o, stamp, now,
        rfl, ?_, resultJson_eq_some.mpr ⟨htexts, Option.some.inj (hjson.symm.trans hset)⟩⟩
      rcases step_keyed hcall rfl with ⟨-, -, hno⟩ | ⟨hpos, -⟩
      · rw [hno row hb] at hhit
        cases hhit
      · exact hpos
  · rw [hrow'] at hget
    obtain rfl := Option.some.inj hget
    cases hjson

end Stored

/-! ### Reading a row -/

variable {P : Pydantic}

theorem rowToJob_request (row : Row) (request : JobRequest P) :
    (rowToJob P row).map Job.request = .ok request ↔ modelValidate P row.requestJson = .ok request := by
  unfold rowToJob
  cases modelValidate P row.requestJson <;> simp [Except.map]

theorem getResult_of_get? {t : Tables} {j : JobId} {row : Row} (hrow : t.jobs.get? j = some row)
    {json : Json} (hjson : row.resultJson = some json) (result : TranscriptionResult PyFloat) :
    getResult P j none t = .ok (some result) ↔ TranscriptionResult.decode P json = .ok result := by
  have : ((t.jobs.get? j).filter fun r => (none : Option String).all (r.clientId = ·)).bind
      Row.resultJson = some json := by
    simp [hrow, Option.filter, hjson]
  simp only [getResult, this]
  cases TranscriptionResult.decode P json <;> simp [Except.map]

/-- **Persistence round trip.**  What `model_dump_json` writes of a request is read back as that request
exactly when UTF-8 can encode its texts and its floats are finite; what `create` stores of it, when
besides no text has U+0000 in it, and likewise for a result.  What is there in a run was stored, and is
read back exactly when its floats are finite. -/
theorem reload_iff (hP : P.Lawful) :
    (∀ request : JobRequest P,
      (∃ json, request.modelDumpJson = some json ∧ modelValidate P json = .ok request) ↔
        (∀ text ∈ request.fields.texts, P.encodes text = true) ∧ request.fields.Finite) ∧
    (∀ request : JobRequest P,
      (∃ json, request.requestJson = some json ∧ modelValidate P json = .ok request) ↔
        P.Storable request.fields.texts ∧ request.fields.Finite) ∧
    (∀ result : TranscriptionResult PyFloat,
      (∃ json, result.resultJson P = some json ∧ TranscriptionResult.decode P json = .ok result) ↔
        P.Storable result.texts ∧ result.Finite) ∧
    ∀ (h : StoreLog P) (s : Db), (storeMachine P).Run h s → ∀ j row,
      s.tables.jobs.get? j = some row →
      (∃ x ∈ h, ∃ new a b, x.event = .create new a b ∧ new.id = j ∧
        P.Storable new.request.fields.texts ∧
        ((rowToJob P row).map Job.request = .ok new.request ↔ new.request.fields.Finite)) ∧
      (row.status = .completed → ∃ x ∈ h, ∃ result w url outcome stamp now,
        x.event = .finish j result w url outcome stamp now ∧ x.reply.positive = true ∧
          P.Storable result.texts ∧
          (getResult P j none s.tables = .ok (some result) ↔ result.Finite)) := by
  refine ⟨fun request => ?_, fun request => ?_, fun result => ?_,
    fun h s run j row hrow => ⟨?_, fun hdone => ?_⟩⟩
  · rw [← modelValidate_json hP]
    simp [JobRequest.modelDumpJson]
  · simp [requestJson_eq_some, ← modelValidate_json hP, and_assoc]
  · simp only [resultJson_eq_some, and_assoc, exists_and_left, exists_eq_left]
    exact and_congr_right' (reloads_result hP)
  · obtain ⟨x, hx, new, a, b, hevent, hid, hjson⟩ := stored_request run hrow
    obtain ⟨htexts, hjson⟩ := requestJson_eq_some.mp hjson
    refine ⟨x, hx, new, a, b, hevent, hid, htexts, ?_⟩
    rw [rowToJob_request, hjson, modelValidate_json hP]
  · have hst := standing run j
    rw [hrow] at hst
    cases hst with
    | present _ _ hl =>
        obtain ⟨json, hjson⟩ := Option.isSome_iff_exists.mp
          (hl.coherent.completed_iff_result.mp hdone)
        obtain ⟨x, hx, result, w, url, o, stamp, now, hevent, hpos, hstored⟩ :=
          stored_result run hrow hjson
        obtain ⟨htexts, rfl⟩ := resultJson_eq_some.mp hstored
        refine ⟨x, hx, result, w, url, o, stamp, now, hevent, hpos, htexts, ?_⟩
        rw [getResult_of_get? hrow hjson, ← reloads_result hP]
        rfl

theorem reload_iff_url :
    ∃ json, (JobRequest.ofUrl (P := .strict) "https://host/a.wav").requestJson = some json ∧
      modelValidate .strict json = .ok (.ofUrl "https://host/a.wav") :=
  ((reload_iff Pydantic.strict_lawful).2.1 _).mpr (by decide +kernel)

/-- A body with one word whose start is `NaN`. -/
def nanBody : Json :=
  .obj [("task", .str "diarize"), ("source_url", .str "https://host/a.wav"),
    ("words", .arr [.obj [("word", .str "hej"), ("start", .num .nan), ("end", .num (.finite 1))]])]

/-- `nanBody` is accepted and stored, and what is stored of it is not accepted. -/
theorem nan_body_not_reloaded : ∃ request json, modelValidate .strict nanBody = .ok request ∧
    request.requestJson = some json ∧ ∀ request', modelValidate .strict json ≠ .ok request' := by
  have hx : ((modelValidate .strict nanBody).toOption.any fun request =>
      request.requestJson.any fun json => (modelValidate .strict json).toOption.isNone) = true := by
    decide +kernel
  cases hv : modelValidate .strict nanBody with
  | error e => rw [hv] at hx; cases hx
  | ok request =>
      rw [hv] at hx
      cases hjson : request.requestJson with
      | none => simp [Except.toOption, hjson] at hx
      | some json =>
          refine ⟨request, json, rfl, hjson, fun request' hr => ?_⟩
          simp [Except.toOption, hjson, hr] at hx

/-- A body with U+0000 in a word is accepted, and cannot be stored. -/
example : ((modelValidate .strict (.obj [("task", .str "diarize"),
    ("words", .arr [.obj [("word", .str "\x00"), ("start", .num (.finite 0)), ("end", .num (.finite 1))]])])
    ).toOption.any fun request => request.requestJson.isNone) = true := by
  decide +kernel

end Vemsa.Jobs
