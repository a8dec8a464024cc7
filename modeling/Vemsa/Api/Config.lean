import Vemsa.Api.McpServer
import Vemsa.Jobs.Timestamps
import Vemsa.Support.Dicts
import Vemsa.Pipeline.Engines

/-!
# Api — Config

The settings a deployment starts with: what their validator lets through, who a bearer token belongs
to, and the knobs of attribution.

* `requireToken_identifies`: a token belongs to the client of the last credential that has it.
* `configured_lines`: no accepted configuration lets an engine return a line out of bounds.
-/

namespace Vemsa.Config
open Vemsa.Support Vemsa.Jobs Vemsa.Pipeline

/-! ### Settings -/

inductive Environment where
  | development | test | production
deriving DecidableEq

/-- `Settings`, as far as the validator reads it. -/
structure Settings where
  apiTokens : List String := []
  environment : Environment := .development
  hfToken : Option String := none
  engine : Api.EngineName := .auto
  whisperExtraForm : List String := []
  emissionsModels : List String := ["sv=KBLab/wav2vec2-large-voxrex-swedish"]
  attrMinCoverage : PyFloat := .finite 0.25
  attrIslandMaxWords : ℤ := 2
  attrIslandMaxDurationS : PyFloat := .finite 1.0
  attrIslandMaxSpanS : PyFloat := .finite 3.0
  attrInheritMaxGapS : PyFloat := .finite 2.0
  attrBoundaryMaxWords : ℤ := 3
  attrBoundaryMaxGapS : PyFloat := .finite 3.0
  attrGapSplitS : PyFloat := .finite 1.0
  attrHardGapSplitS : PyFloat := .finite 15.0
  attrLineSentenceSplitS : PyFloat := .finite 15.0
  attrLineMaxS : PyFloat := .finite 30.0
  attrLineMaxWords : ℤ := 60
  attrMinSegmentWords : ℤ := 1
  attrMinSegmentDurationS : PyFloat := .finite 0.6
  attrAlignMergeGapS : PyFloat := .finite 0.5
  attrAlignWindowPadS : PyFloat := .finite 0.5
  attrRelabelMinShare : PyFloat := .finite 0.5
  alignMaxInterpolatedShare : PyFloat := .finite 1.0
  maxTranscriptBytes : ℤ := 8 * 1024 * 1024
  retentionHours : PyFloat := .finite 72
  webhookPollIntervalS : PyFloat := .finite 1
  webhookMaxAttempts : ℤ := 8
  queuePollIntervalS : PyFloat := .finite 1
  jobLeaseS : PyFloat := .finite 120
  leaseHeartbeatS : PyFloat := .finite 30
  shutdownGraceS : PyFloat := .finite 30
  workerStaleS : PyFloat := .finite 90
  opsUser : Option String := none
  opsPassword : Option String := none
  statsRetentionDays : PyFloat := .finite 90
  workerConcurrency : ℤ := 1
  gpuConcurrency : ℤ := 1
  oomMaxAttempts : ℤ := 3
  oomRetryDelayS : PyFloat := .finite 30
  maxQueuedJobs : ℤ := 100
  maxQueuedJobsPerClient : ℤ := 10

/-- `<=` -/
def le (x y : PyFloat) : Bool := x ≠ .nan && y ≠ .nan && !y.lt x

/-- `2 * x` -/
def twice : PyFloat → PyFloat
  | .finite q => .finite (q * 2)
  | x => x

/-- An integer among floats. -/
def ofInt (n : ℤ) : PyFloat := .finite n

/-- `value.partition(separator)`: what is before, whether the separator is there, and what is after. -/
def partition (separator : Char) (value : String) : String × Bool × String :=
  let before := value.toList.takeWhile (· ≠ separator)
  let rest := value.toList.drop before.length
  (.ofList before, !rest.isEmpty, .ofList rest.tail)

/-! ### The validator -/

/-- `[a-zA-Z0-9]` -/
def isAlphanumeric (c : Char) : Bool := c.isAlpha || c.isDigit

/-- `_CLIENT_ID.fullmatch` -/
def isClientId (value : String) : Bool :=
  match value.toList with
  | [] => false
  | first :: rest =>
    isAlphanumeric first && rest.length ≤ 63 &&
      rest.all fun c => isAlphanumeric c || c = '.' || c = '_' || c = '-'

/-- A check that a setting is positive; `NaN` is neither. -/
def greaterThanZero (name : String) (value : PyFloat) : Option String :=
  if le value (.finite 0) then some (name ++ " must be greater than zero") else none

def betweenZeroAndOne (name : String) (value : PyFloat) : Option String :=
  if !(le (.finite 0) value && le value (.finite 1)) then some (name ++ " must be between 0 and 1")
  else none

def notNegative (name : String) (value : PyFloat) : Option String :=
  if value.lt (.finite 0) then some (name ++ " cannot be negative") else none

def check (refused : Bool) (message : String) : Option String := if refused then some message else none

section Validator

variable (s : Settings)

/-- `value or None` -/
def orNone (value : Option String) : Option String := value.filter fun text => !text.isEmpty

def credentialRefused (value : String) : Bool :=
  let (clientId, separator, token) := partition '=' value
  separator && (!isClientId clientId || token.isEmpty)

def formFieldRefused (value : String) : Bool :=
  let (key, separator, _) := partition '=' value
  !separator || key.isEmpty

def emissionsModelRefused (value : String) : Bool :=
  let (language, separator, model) := partition '=' value
  !separator || (pyStrip language).isEmpty || (pyStrip model).isEmpty

def credentialChecks : List (Option String) :=
  [ check (s.apiTokens.any credentialRefused)
      "named API credentials must use client_id=token with a valid client id",
    check (s.whisperExtraForm.any formFieldRefused) "whisper_extra_form entries must use key=value",
    check (s.emissionsModels.any emissionsModelRefused)
      "emissions_models entries must use language=model" ]

def productionChecks : List (Option String) :=
  [ check s.apiTokens.isEmpty "VEMSA_API_TOKENS is required in production",
    check (s.apiTokens.any fun value => !value.toList.contains '=')
      "production API credentials must be named using client_id=token",
    check (s.engine = .fake) "the fake transcription engine is not allowed in production",
    check (s.engine = .diarize && (orNone s.hfToken).isNone)
      "the diarize tier requires HF_TOKEN for the gated pyannote models" ]

def serviceChecks : List (Option String) :=
  [ check (le s.jobLeaseS (twice s.leaseHeartbeatS))
      "job_lease_s must be more than twice lease_heartbeat_s",
    check ((orNone s.opsUser).isNone ≠ (orNone s.opsPassword).isNone)
      "VEMSA_OPS_USER and VEMSA_OPS_PASSWORD must be set together",
    greaterThanZero "queue_poll_interval_s" s.queuePollIntervalS,
    greaterThanZero "webhook_poll_interval_s" s.webhookPollIntervalS,
    greaterThanZero "lease_heartbeat_s" s.leaseHeartbeatS,
    greaterThanZero "shutdown_grace_s" s.shutdownGraceS,
    greaterThanZero "worker_stale_s" s.workerStaleS,
    greaterThanZero "retention_hours" s.retentionHours,
    greaterThanZero "stats_retention_days" s.statsRetentionDays,
    check (s.maxTranscriptBytes ≤ 0) "max_transcript_bytes must be greater than zero" ]

def attributionChecks : List (Option String) :=
  [ betweenZeroAndOne "attr_min_coverage" s.attrMinCoverage,
    betweenZeroAndOne "attr_relabel_min_share" s.attrRelabelMinShare,
    betweenZeroAndOne "align_max_interpolated_share" s.alignMaxInterpolatedShare,
    notNegative "attr_align_merge_gap_s" s.attrAlignMergeGapS,
    notNegative "attr_align_window_pad_s" s.attrAlignWindowPadS,
    greaterThanZero "attr_island_max_words" (ofInt s.attrIslandMaxWords),
    greaterThanZero "attr_island_max_duration_s" s.attrIslandMaxDurationS,
    greaterThanZero "attr_island_max_span_s" s.attrIslandMaxSpanS,
    greaterThanZero "attr_inherit_max_gap_s" s.attrInheritMaxGapS,
    greaterThanZero "attr_boundary_max_words" (ofInt s.attrBoundaryMaxWords),
    greaterThanZero "attr_boundary_max_gap_s" s.attrBoundaryMaxGapS,
    greaterThanZero "attr_gap_split_s" s.attrGapSplitS,
    greaterThanZero "attr_hard_gap_split_s" s.attrHardGapSplitS,
    greaterThanZero "attr_line_sentence_split_s" s.attrLineSentenceSplitS,
    greaterThanZero "attr_line_max_s" s.attrLineMaxS,
    greaterThanZero "attr_line_max_words" (ofInt s.attrLineMaxWords),
    greaterThanZero "attr_min_segment_words" (ofInt s.attrMinSegmentWords),
    greaterThanZero "attr_min_segment_duration_s" s.attrMinSegmentDurationS ]

def queueChecks : List (Option String) :=
  [ check (s.maxQueuedJobs ≤ 0 || s.maxQueuedJobsPerClient ≤ 0)
      "queue limits must be greater than zero",
    check (s.maxQueuedJobs < s.maxQueuedJobsPerClient)
      "max_queued_jobs_per_client cannot exceed max_queued_jobs",
    check (s.webhookMaxAttempts ≤ 0) "webhook_max_attempts must be greater than zero",
    check (s.workerConcurrency < 1) "worker_concurrency must be at least 1",
    check (!(1 ≤ s.gpuConcurrency && s.gpuConcurrency ≤ s.workerConcurrency))
      "gpu_concurrency must be between 1 and worker_concurrency",
    check (s.oomMaxAttempts < 1) "oom_max_attempts must be at least 1",
    notNegative "oom_retry_delay_s" s.oomRetryDelayS ]

/-- The checks of `_validate_production_settings`, in order. -/
def checks : List (Option String) :=
  credentialChecks s ++ (if s.environment = .production then productionChecks s else []) ++
    serviceChecks s ++ attributionChecks s ++ queueChecks s

/-- `_validate_production_settings` -/
def validate : Except String Settings :=
  match (checks s).findSome? id with
  | some message => .error message
  | none => .ok { s with opsUser := orNone s.opsUser, opsPassword := orNone s.opsPassword }

end Validator

/-! ### Credentials -/

section Credentials

variable (fingerprint : String → String) (s : Settings)

/-- The token of an entry of `api_tokens`, and its client; `fingerprint` is the start of the digest. -/
def credential (value : String) : String × String :=
  let (clientId, separator, token) := partition '=' value
  if separator then (token, clientId) else (value, "token-" ++ fingerprint value)

/-- `token_clients` -/
def Settings.tokenClients : List (String × String) := fillItems (s.apiTokens.map (credential fingerprint))

/-- What `require_token` raises: status 503, status 401, and what `compare_digest` does. -/
inductive AuthError where
  | noTokens | invalidToken | typeError
deriving DecidableEq

def isAscii (text : String) : Bool := text.toList.all fun c => c.toNat < 128

/-- `secrets.compare_digest` of texts -/
def compareDigest (a b : String) : Except AuthError Bool :=
  if isAscii a && isAscii b then .ok (a = b) else .error .typeError

/-- The loop of `require_token`; no token stops it. -/
def matchToken (presented : String) (clientId : Option String) :
    List (String × String) → Except AuthError (Option String)
  | [] => .ok clientId
  | (token, candidate) :: rest => do
    let same ← compareDigest presented token
    matchToken presented (if same then some candidate else clientId) rest

/-- `client_id` after the loop, if there are credentials. -/
def matchCredentials (tokenClients : List (String × String)) :
    Option String → Except AuthError (Option String)
  | none => .ok none
  | some presented => matchToken presented none tokenClients

/-- `require_token` -/
def requireToken (credentials : Option String) : Except AuthError String :=
  let tokenClients := s.tokenClients fingerprint
  if tokenClients = [] then .error .noTokens
  else
    match matchCredentials tokenClients credentials with
    | .error e => .error e
    | .ok none => .error .invalidToken
    | .ok (some clientId) => .ok clientId

end Credentials

/-! ### Knobs -/

/-- The knobs that are seconds or shares. -/
def Settings.knobs (s : Settings) : List PyFloat :=
  [s.attrMinCoverage, s.attrIslandMaxDurationS, s.attrIslandMaxSpanS, s.attrInheritMaxGapS,
    s.attrBoundaryMaxGapS, s.attrGapSplitS, s.attrHardGapSplitS, s.attrLineSentenceSplitS,
    s.attrLineMaxS, s.attrMinSegmentDurationS, s.attrAlignMergeGapS, s.attrAlignWindowPadS,
    s.attrRelabelMinShare]

/-- `attribution_tuning`; missing where a knob is not a number of seconds. -/
def Settings.attributionTuning (s : Settings) : Option (AttributionKnobs ℚ) :=
  if s.knobs.all PyFloat.isFinite then
    some {
      minCoverage := exactTime s.attrMinCoverage
      islandMaxWords := s.attrIslandMaxWords
      islandMaxDurationS := exactTime s.attrIslandMaxDurationS
      islandMaxSpanS := exactTime s.attrIslandMaxSpanS
      inheritMaxGapS := exactTime s.attrInheritMaxGapS
      boundaryMaxWords := s.attrBoundaryMaxWords
      boundaryMaxGapS := exactTime s.attrBoundaryMaxGapS
      gapSplitS := exactTime s.attrGapSplitS
      hardGapSplitS := exactTime s.attrHardGapSplitS
      lineSentenceSplitS := exactTime s.attrLineSentenceSplitS
      lineMaxS := exactTime s.attrLineMaxS
      lineMaxWords := s.attrLineMaxWords
      minSegmentWords := s.attrMinSegmentWords
      minSegmentDurationS := exactTime s.attrMinSegmentDurationS
      alignMergeGapS := exactTime s.attrAlignMergeGapS
      alignWindowPadS := exactTime s.attrAlignWindowPadS
      relabelMinShare := exactTime s.attrRelabelMinShare }
  else none

/-! ### What is accepted -/

theorem check_eq_none {refused : Bool} {message : String} :
    check refused message = none ↔ refused = false := by
  cases refused <;> simp [check]

/-- An accepted configuration passed every check. -/
theorem validate_eq_ok {s s' : Settings} : validate s = .ok s' ↔
    (∀ c ∈ checks s, c = none) ∧
      s' = { s with opsUser := orNone s.opsUser, opsPassword := orNone s.opsPassword } := by
  unfold validate
  split
  · rename_i message hfound
    refine iff_of_false (fun h => nomatch h) fun h => ?_
    obtain ⟨c, hc, hid⟩ := List.exists_of_findSome?_eq_some hfound
    exact absurd (h.1 c hc) (by simp [show c = some message from hid])
  · rename_i hnone
    have hall : ∀ c ∈ checks s, c = none := fun c hc => List.findSome?_eq_none_iff.mp hnone c hc
    constructor
    · intro h
      exact ⟨hall, (Except.ok.inj h).symm⟩
    · rintro ⟨-, rfl⟩
      rfl

/-! ### Partitions -/

section Partition

variable {separator : Char} {value before after : String} {found : Bool}

/-- What is left of a text at its separator. -/
theorem drop_takeWhile (separator : Char) (text : List Char) :
    text.drop (text.takeWhile (· ≠ separator)).length = text.dropWhile (· ≠ separator) := by
  have hsplit : text.takeWhile (· ≠ separator) ++ text.dropWhile (· ≠ separator) = text :=
    List.takeWhile_append_dropWhile
  calc text.drop (text.takeWhile (· ≠ separator)).length
      = (text.takeWhile (· ≠ separator) ++ text.dropWhile (· ≠ separator)).drop
          (text.takeWhile (· ≠ separator)).length := by rw [hsplit]
    _ = text.dropWhile (· ≠ separator) := List.drop_left

theorem partition_eq :
    partition separator value = (before, found, after) ↔
      before = .ofList (value.toList.takeWhile (· ≠ separator)) ∧
      found = !(value.toList.dropWhile (· ≠ separator)).isEmpty ∧
      after = .ofList (value.toList.dropWhile (· ≠ separator)).tail := by
  rw [partition, drop_takeWhile]
  simp only [Prod.mk.injEq, eq_comm]

/-- **A text with its separator** is cut at the first one. -/
theorem partition_true : partition separator value = (before, true, after) ↔
    value.toList = before.toList ++ separator :: after.toList ∧ separator ∉ before.toList := by
  rw [partition_eq]
  constructor
  · rintro ⟨rfl, hfound, rfl⟩
    obtain ⟨c, rest, hrest⟩ : ∃ c rest, value.toList.dropWhile (· ≠ separator) = c :: rest :=
      List.exists_cons_of_ne_nil (by simpa using hfound.symm)
    have hc : c = separator := by
      have hhead := List.head?_dropWhile_not (fun c => decide (c ≠ separator)) value.toList
      rw [hrest] at hhead
      simpa using hhead
    rw [String.toList_ofList, String.toList_ofList]
    refine ⟨?_, fun hmem => ?_⟩
    · rw [hrest, List.tail_cons, ← hc]
      nth_rewrite 1 [← List.takeWhile_append_dropWhile (p := fun c => decide (c ≠ separator))
        (l := value.toList)]
      rw [hrest, hc]
    · have hpass := List.mem_takeWhile_imp hmem
      simp at hpass
  · rintro ⟨hvalue, hnot⟩
    have htake : value.toList.takeWhile (· ≠ separator) = before.toList := by
      rw [hvalue, List.takeWhile_append_of_pos fun c hc => by
        simpa using fun h : c = separator => hnot (h ▸ hc)]
      simp
    have hdrop : value.toList.dropWhile (· ≠ separator) = separator :: after.toList := by
      rw [hvalue, List.dropWhile_append_of_pos fun c hc => by
        simpa using fun h : c = separator => hnot (h ▸ hc)]
      simp
    rw [htake, hdrop]
    simp

end Partition

/-! ### Who a token belongs to -/

section Tokens

variable {fingerprint : String → String} {s s' : Settings}

theorem matchToken_eq (presented : String) (acc : Option String) {clients : List (String × String)}
    (hnodup : (clients.map Prod.fst).Nodup) : matchToken presented acc clients =
      if (clients = [] ∨ isAscii presented = true) ∧ ∀ entry ∈ clients, isAscii entry.1 = true then
        .ok ((clients.lookup presented).or acc)
      else .error .typeError := by
  induction clients generalizing acc with
  | nil => simp [matchToken]
  | cons entry clients ih =>
      obtain ⟨token, candidate⟩ := entry
      obtain ⟨hnew, hnodup⟩ := List.nodup_cons.mp hnodup
      rw [matchToken, compareDigest]
      by_cases hascii : isAscii presented = true ∧ isAscii token = true
      · rw [if_pos (by simp [hascii]), except_ok_bind, ih _ hnodup]
        have hall : ((clients = [] ∨ isAscii presented = true) ∧ ∀ entry ∈ clients, isAscii entry.1 = true) ↔
            (((token, candidate) :: clients = [] ∨ isAscii presented = true) ∧
              ∀ entry ∈ (token, candidate) :: clients, isAscii entry.1 = true) := by
          simp [hascii]
        rw [if_congr hall rfl rfl, List.lookup_cons]
        by_cases hsame : presented = token
        · -- no later entry has the token
          have hnone : clients.lookup presented = none :=
            Option.not_isSome_iff_eq_none.mp fun h => hnew (hsame ▸ lookup_isSome.mp h)
          simp [hsame, hsame ▸ hnone]
        · have hne : (presented == token) = false := by simpa using hsame
          simp [hsame, hne]
      · rw [if_neg (by simpa using hascii), if_neg]
        · rfl
        · rintro ⟨hpresented, hall⟩
          exact hascii ⟨hpresented.resolve_left (List.cons_ne_nil _ _), hall _ List.mem_cons_self⟩

/-- The tokens are those of the credentials. -/
theorem mem_keys_tokenClients {token : String} :
    token ∈ (s.tokenClients fingerprint).map Prod.fst ↔
      ∃ value ∈ s.apiTokens, (credential fingerprint value).1 = token := by
  rw [Settings.tokenClients, mem_keys_fillItems, List.map_map]
  exact List.mem_map

theorem tokenClients_eq_nil : s.tokenClients fingerprint = [] ↔ s.apiTokens = [] := by
  rw [← List.map_eq_nil_iff (f := Prod.fst), List.eq_nil_iff_forall_not_mem,
    List.eq_nil_iff_forall_not_mem]
  simp only [mem_keys_tokenClients]
  constructor
  · intro h value hvalue
    exact h _ ⟨value, hvalue, rfl⟩
  · rintro h token ⟨value, hvalue, -⟩
    exact h value hvalue

theorem ascii_tokenClients : (∀ entry ∈ s.tokenClients fingerprint, isAscii entry.1 = true) ↔
    ∀ value ∈ s.apiTokens, isAscii (credential fingerprint value).1 = true := by
  constructor
  · intro h value hvalue
    obtain ⟨entry, hentry, htoken⟩ := List.mem_map.mp (mem_keys_tokenClients.mpr ⟨value, hvalue, rfl⟩)
    exact htoken ▸ h entry hentry
  · intro h entry hentry
    obtain ⟨value, hvalue, htoken⟩ := mem_keys_tokenClients.mp (List.mem_map_of_mem hentry)
    exact htoken ▸ h value hvalue

/-- **What `require_token` answers** to a token, in full. -/
theorem requireToken_eq (presented : String) : requireToken fingerprint s (some presented) =
    if s.apiTokens = [] then .error .noTokens
    else if isAscii presented = true ∧
        ∀ value ∈ s.apiTokens, isAscii (credential fingerprint value).1 = true then
      match (s.apiTokens.map (credential fingerprint)).reverse.lookup presented with
      | none => .error .invalidToken
      | some clientId => .ok clientId
    else .error .typeError := by
  have hnodup : ((s.tokenClients fingerprint).map Prod.fst).Nodup := nodup_fillItems _
  unfold requireToken
  by_cases hnone : s.apiTokens = []
  · rw [if_pos hnone, if_pos (tokenClients_eq_nil.mpr hnone)]
  · rw [if_neg hnone, if_neg (mt tokenClients_eq_nil.mp hnone), matchCredentials,
      matchToken_eq presented none hnodup]
    have hcond : ((s.tokenClients fingerprint = [] ∨ isAscii presented = true) ∧
        ∀ entry ∈ s.tokenClients fingerprint, isAscii entry.1 = true) ↔
          (isAscii presented = true ∧
            ∀ value ∈ s.apiTokens, isAscii (credential fingerprint value).1 = true) := by
      rw [ascii_tokenClients, or_iff_right (mt tokenClients_eq_nil.mp hnone)]
    by_cases hascii : isAscii presented = true ∧
        ∀ value ∈ s.apiTokens, isAscii (credential fingerprint value).1 = true
    · rw [if_pos (hcond.mpr hascii), if_pos hascii, Option.or_none, Settings.tokenClients,
        lookup_fillItems]
      cases (s.apiTokens.map (credential fingerprint)).reverse.lookup presented <;> rfl
    · rw [if_neg (mt hcond.mp hascii), if_neg hascii]

/-! ### Production -/

/-- The credentials of an accepted production configuration. -/
structure Named (tokens : List String) : Prop where
  ne_nil : tokens ≠ []
  named : ∀ value ∈ tokens, ∃ clientId token, value.toList = clientId.toList ++ '=' :: token.toList ∧
    isClientId clientId = true ∧ token ≠ ""

theorem not_mem_clientId {clientId : String} (h : isClientId clientId = true) :
    '=' ∉ clientId.toList := by
  unfold isClientId at h
  split at h
  · rename_i hnil
    simp [hnil]
  · rename_i first rest hcons
    rw [hcons]
    intro hmem
    simp only [Bool.and_eq_true, List.all_eq_true] at h
    rcases List.mem_cons.mp hmem with rfl | hmem
    · exact absurd h.1.1 (by decide)
    · exact absurd (h.2 _ hmem) (by decide)

theorem named_of_accepted (haccepted : validate s = .ok s') (hproduction : s.environment = .production) :
    Named s.apiTokens := by
  obtain ⟨hall, -⟩ := validate_eq_ok.mp haccepted
  simp only [checks, hproduction, if_true, List.forall_mem_append] at hall
  obtain ⟨⟨⟨⟨hcredentials, hproductions⟩, -⟩, -⟩, -⟩ := hall
  simp only [credentialChecks, productionChecks, List.forall_mem_cons, check_eq_none] at hcredentials hproductions
  obtain ⟨hrefused, -⟩ := hcredentials
  obtain ⟨hempty, hsigns, -⟩ := hproductions
  refine ⟨by simpa using hempty, fun value hvalue => ?_⟩
  have hsign : '=' ∈ value.toList := by simpa using List.any_eq_false.mp hsigns value hvalue
  obtain ⟨clientId, token, hvalue', hnot⟩ : ∃ clientId token : String,
      value.toList = clientId.toList ++ '=' :: token.toList ∧ '=' ∉ clientId.toList := by
    obtain ⟨before, after, hsplit, hnot⟩ := List.eq_append_cons_of_mem hsign
    exact ⟨.ofList before, .ofList after, by simpa using hsplit, by simpa using hnot⟩
  have haccept := List.any_eq_false.mp hrefused value hvalue
  rw [credentialRefused, partition_true.mpr ⟨hvalue', hnot⟩] at haccept
  refine ⟨clientId, token, hvalue', ?_⟩
  simpa using haccept

/-- An answer to a token tells the client of the last credential that has it. -/
def Identified (tokens : List String) (presented : String) : Except AuthError String → Prop
  | .ok clientId => isClientId clientId = true ∧
      ∃ before after, tokens = before ++ (clientId ++ "=" ++ presented) :: after ∧
        ∀ value ∈ after, ∀ other, isClientId other = true → value ≠ other ++ "=" ++ presented
  | .error .invalidToken => ∀ clientId, isClientId clientId = true → clientId ++ "=" ++ presented ∉ tokens
  | .error .typeError => isAscii presented = false ∨ ∃ clientId token, isClientId clientId = true ∧
      clientId ++ "=" ++ token ∈ tokens ∧ isAscii token = false
  | .error .noTokens => False

theorem credential_named (fingerprint : String → String) {clientId token : String}
    (h : isClientId clientId = true) :
    credential fingerprint (clientId ++ "=" ++ token) = (token, clientId) := by
  have hpartition : partition '=' (clientId ++ "=" ++ token) = (clientId, true, token) :=
    partition_true.mpr ⟨by simp, not_mem_clientId h⟩
  rw [credential, hpartition]
  rfl

theorem Named.eq_append {tokens : List String} (h : Named tokens) {value : String}
    (hvalue : value ∈ tokens) : ∃ clientId token, value = clientId ++ "=" ++ token ∧
      isClientId clientId = true ∧ token ≠ "" := by
  obtain ⟨clientId, token, heq, hid, hne⟩ := h.named value hvalue
  exact ⟨clientId, token, String.toList_inj.mp (by simpa using heq), hid, hne⟩

/-- **Who a token belongs to**, in production: to the client of the last credential that has it, to
nobody if none has; the check of a token never fails for want of credentials. -/
theorem requireToken_identifies (fingerprint : String → String) (haccepted : validate s = .ok s')
    (hproduction : s.environment = .production) (presented : String) :
    Identified s.apiTokens presented (requireToken fingerprint s' (some presented)) := by
  have hnamed := named_of_accepted haccepted hproduction
  obtain ⟨-, rfl⟩ := validate_eq_ok.mp haccepted
  rw [requireToken_eq]
  dsimp only
  rw [if_neg hnamed.ne_nil]
  split
  · split
    · rename_i hnone
      intro clientId hid hmem
      have hkey : presented ∈ (s.apiTokens.map (credential fingerprint)).reverse.map Prod.fst := by
        simp only [List.map_reverse, List.map_map, List.mem_reverse, List.mem_map]
        exact ⟨_, hmem, congrArg Prod.fst (credential_named fingerprint hid)⟩
      exact absurd (lookup_isSome.mpr hkey) (by simp [hnone])
    · rename_i clientId hfound
      obtain ⟨earlier, later, hpairs, hlast⟩ := lookup_reverse_eq_some.mp hfound
      obtain ⟨before, rest, htokens, -, hrest⟩ := List.map_eq_append_iff.mp hpairs
      obtain ⟨value, after, rfl, hvalue, hafter⟩ := List.map_eq_cons_iff.mp hrest
      obtain ⟨named, token, rfl, hid, -⟩ := hnamed.eq_append
        (htokens ▸ List.mem_append_right _ List.mem_cons_self)
      rw [credential_named fingerprint hid] at hvalue
      obtain ⟨rfl, rfl⟩ := Prod.mk.inj hvalue
      refine ⟨hid, before, after, htokens, ?_⟩
      rintro value hvalue other hother rfl
      -- it would have been set last
      have hmem : (token, other) ∈ later := by
        rw [← hafter, ← credential_named fingerprint hother]
        exact List.mem_map_of_mem hvalue
      exact hlast _ hmem rfl
  · rename_i hascii
    rw [not_and_or] at hascii
    refine hascii.imp (by simp) fun hother => ?_
    simp only [not_forall] at hother
    obtain ⟨value, hvalue, hnot⟩ := hother
    obtain ⟨clientId, token, rfl, hid, -⟩ := hnamed.eq_append hvalue
    rw [credential_named fingerprint hid] at hnot
    exact ⟨clientId, token, hid, hvalue, by simpa using hnot⟩

/-- Two clients, one of which changed its token. -/
def twoClients : Settings where
  apiTokens := ["alice=old", "bob=secret", "alice=new"]
  environment := .production

theorem requireToken_identifies_bob :
    Identified twoClients.apiTokens "secret" (requireToken id twoClients (some "secret")) ∧
      requireToken id twoClients (some "secret") = .ok "bob" :=
  have haccepted : validate twoClients = .ok twoClients := validate_eq_ok.mpr ⟨by decide +kernel, rfl⟩
  ⟨requireToken_identifies id haccepted rfl "secret", by decide +kernel⟩

end Tokens

/-! ### Lines -/

section Lines

variable {s s' : Settings} {tuning : AttributionKnobs ℚ}

theorem greaterThanZero_eq_none {name : String} {n : ℤ} :
    greaterThanZero name (ofInt n) = none ↔ 0 < n := by
  simp [greaterThanZero, le, ofInt, PyFloat.lt]

theorem lineMaxWords_pos (haccepted : validate s = .ok s') (htuning : s'.attributionTuning = some tuning) :
    0 < tuning.lineMaxWords := by
  obtain ⟨hall, rfl⟩ := validate_eq_ok.mp haccepted
  have hwords : 0 < s.attrLineMaxWords :=
    greaterThanZero_eq_none.mp (hall (greaterThanZero "attr_line_max_words" _)
      (by simp [checks, attributionChecks]))
  unfold Settings.attributionTuning at htuning
  split at htuning
  · rw [← Option.some.inj htuning]
    exact hwords
  · cases htuning

/-- A call nobody asks the speakers of. -/
def Speakerless : Call → Prop
  | .transcribe _ _ diarize _ _ => diarize = false
  | .timestampTranscript .. => True
  | _ => False

/-- A reader line: within the bounds, and nobody's. -/
structure ReaderLine (tuning : AttributionKnobs ℚ) (line : Segment ℚ) : Prop where
  bounds : WithinBounds tuning line
  speaker : line.speaker = none

theorem readerLine_of_mem (hwords : 0 < tuning.lineMaxWords) {words : List (Word ℚ)} {line : Segment ℚ}
    (h : line ∈ segmentsWithoutSpeakers tuning words) : ReaderLine tuning line := by
  unfold segmentsWithoutSpeakers at h
  split at h
  · cases h
  · obtain ⟨p, hp, hspeaker⟩ := speaker_groupLabelled _ line h
    obtain ⟨word, -, rfl⟩ := List.mem_map.mp hp
    exact ⟨forall_groupLabelled (fun _ _ _ h => h.withinBounds hwords) _ line h, hspeaker⟩

/-- **Lines are within bounds, however the service is configured**: under any settings the validator
accepts, a transcript without speakers comes in lines within the configured bounds, from every engine
that does not keep the segments of its provider. -/
theorem configured_lines (haccepted : validate s = .ok s')
    (htuning : s'.attributionTuning = some tuning) (d : Deployment) (hd : d.tuning = tuning)
    {tier : Tier} {call : Call} (hcall : Speakerless call) {result : TranscriptionResult ℚ}
    (h : d.answer tier call = .ok result) :
    (∀ line ∈ result.segments, ReaderLine tuning line) ∨ d.KeepsSegments tier call result := by
  have hwords := lineMaxWords_pos haccepted htuning
  have hlines : ∀ {words}, result.segments = segmentsWithoutSpeakers d.tuning words →
      ∀ line ∈ result.segments, ReaderLine tuning line := fun heq line hline =>
    readerLine_of_mem hwords (hd ▸ heq ▸ hline)
  cases call with
  | transcribe language model diarize speakers includeSpeakerReview =>
      cases hcall
      exact (Deployment.transcribe_lines h).imp_left fun ⟨_, hsegments⟩ => hlines hsegments
  | timestampTranscript segments language model =>
      obtain ⟨_, hsegments⟩ := Deployment.timestampTranscript_lines h
      exact .inl (hlines hsegments)
  | labelSpeakers | alignTranscript => exact hcall.elim

theorem configured_lines_annaAndBo :
    Deployment.annaAndBo.answer .remote (.timestampTranscript twoSpeakers "sv" "external") =
        .ok Deployment.annaAndBoLines ∧
      ∀ line ∈ Deployment.annaAndBoLines.segments, ReaderLine Deployment.annaAndBo.tuning line := by
  have haccepted : validate {} = .ok {} := validate_eq_ok.mpr ⟨by decide +kernel, rfl⟩
  have hspeakerless : Speakerless (.timestampTranscript twoSpeakers "sv" "external") := trivial
  have hanswer : Deployment.annaAndBo.answer .remote (.timestampTranscript twoSpeakers "sv" "external") =
    .ok Deployment.annaAndBoLines := by decide +kernel
  have hlines := configured_lines haccepted rfl Deployment.annaAndBo rfl hspeakerless hanswer
  exact ⟨hanswer, hlines.resolve_right nofun⟩

end Lines

end Vemsa.Config
