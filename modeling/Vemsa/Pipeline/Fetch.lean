import Vemsa.Support.Logs
import Vemsa.Jobs.Loops

/-!
# Pipeline — Fetch

Where the audio of a job comes from: a URL, followed by hand from redirect to redirect, or an upload.
Both are written to a new file, chunk by chunk, with a limit on the sum of the chunks; whatever goes
wrong on the way, the file is deleted again.

The network, the file system and `uuid4` answer as they like; a write that fails may leave anything of
the file.  Only `unlink` of a file that was just written is taken to delete it.
-/

namespace Vemsa.Pipeline
open Vemsa.Support Vemsa.Jobs

abbrev Bytes := List UInt8

/-- The chunks a body is read in, and what reading raises after the last. -/
structure Stream where
  chunks : List Bytes
  failure : Option Exn := none

/-- A response, with the headers `fetch_url` reads and the chunks of `aiter_bytes`. -/
structure Response where
  statusCode : ℕ
  location : Option String := none
  contentLength : Option String := none
  body : Stream

/-- What a failed operation on a file raised, and what is then under its name. -/
structure FileFailure where
  exn : Exn
  left : Option Bytes

/-- What fetching asks of the network, the file system and `uuid4`. -/
inductive FetchOp where
  | validation (o : Ask)
  | enterClient
  | exitClient
  | send (url : String)
  | aclose
  | mkdir (dir : Path)
  | uuid4
  | openFile (dest : Path)
  | write (dest : Path) (chunk : Bytes)
  | closeFile (dest : Path)
  | unlink (dest : Path)

@[reducible]
def FetchOp.Answer : FetchOp → Type
  | validation o => o.Answer
  | send _ => Except Exn Response
  | enterClient | exitClient | aclose | mkdir _ => Except Exn Unit
  | openFile _ | write .. | closeFile _ => Except FileFailure Unit
  | uuid4 => String
  | unlink _ => Unit

inductive FetchError where
  | raised (e : Exn)
  | audioTooLarge (message : String)

/-- A program that fetches. -/
abbrev Fetch (α : Type) := Proc FetchOp.Answer FetchError α

section Asking

variable {α : Type}

def Fetch.ofExcept : Except Exn α → Fetch α
  | .ok a => pure a
  | .error e => .raise (.raised e)

def Fetch.ofFile : Except FileFailure Unit → Fetch Unit
  | .ok () => pure ()
  | .error f => .raise (.raised f.exn)

def enterClient : Fetch Unit := Proc.read FetchOp.enterClient >>= Fetch.ofExcept

def exitClient : Fetch Unit := Proc.read FetchOp.exitClient >>= Fetch.ofExcept

def send (url : String) : Fetch Response := Proc.read (FetchOp.send url) >>= Fetch.ofExcept

def aclose : Fetch Unit := Proc.read FetchOp.aclose >>= Fetch.ofExcept

def mkdir (dir : Path) : Fetch Unit := Proc.read (FetchOp.mkdir dir) >>= Fetch.ofExcept

def openFile (dest : Path) : Fetch Unit := Proc.read (FetchOp.openFile dest) >>= Fetch.ofFile

def write (dest : Path) (chunk : Bytes) : Fetch Unit :=
  Proc.read (FetchOp.write dest chunk) >>= Fetch.ofFile

def closeFile (dest : Path) : Fetch Unit := Proc.read (FetchOp.closeFile dest) >>= Fetch.ofFile

end Asking

/-! ### The source -/

/-- `_MAX_REDIRECTS` -/
def maxRedirects : ℕ := 5

/-- `_REDIRECT_CODES` -/
def redirectCodes : List ℕ := [301, 302, 303, 307, 308]

/-- What `fetch_url` takes from the libraries besides: `urljoin`, the path of `urlparse`, the suffix of
a `Path`, `int`, and the two functions of `httpx` that raise without asking. -/
structure HttpLib extends UrlLib where
  urljoin : String → String → Except Exn String
  urlPath : String → String
  suffix : String → String
  int : String → Except Exn ℤ
  buildRequest : String → Except Exn Unit
  raiseForStatus : Response → Except Exn Unit

/-- The keyword arguments of `fetch_url`. -/
structure FetchSettings where
  destDir : Path
  maxBytes : ℕ
  allowPrivate : Bool := false
  allowedHosts : List String := []

section Source

variable (lib : HttpLib) (s : FetchSettings)

/-- `_dest_path` -/
def destPath (destDir : Path) (nameHint : Option String) : Fetch Path := do
  let suffix := ((nameHint.filter fun name => !name.isEmpty).map lib.suffix).getD ""
  let suffix := if suffix.isEmpty ∨ 8 < suffix.length then ".audio" else suffix
  mkdir destDir
  let hex ← Proc.read FetchOp.uuid4
  return destDir ++ "/" ++ hex ++ suffix

/-- The loops of `_write_stream` and `save_upload`; `what` is the word in the message. -/
def writeChunks (what : String) (dest : Path) (maxBytes : ℕ) (received : ℕ) (failure : Option Exn) :
    List Bytes → Fetch Unit
  | [] =>
    match failure with
    | none => pure ()
    | some e => .raise (.raised e)
  | chunk :: chunks => do
    let received := received + chunk.length
    if maxBytes < received then
      .raise (.audioTooLarge (what ++ s!" exceeds {maxBytes} bytes"))
    else
      write dest chunk
      writeChunks what dest maxBytes received failure chunks

/-- `with dest.open("wb") as out`, in a `try` that deletes the file -/
def writeStream (what : String) (body : Stream) (dest : Path) (maxBytes : ℕ) : Fetch Unit :=
  Proc.guard
    (do
      openFile dest
      (writeChunks what dest maxBytes 0 body.failure body.chunks).ensuring (closeFile dest))
    fun e => do
      Proc.read (FetchOp.unlink dest)
      .raise e

/-- `await validate_outbound_url(url, allow_private=…, allowed_hosts=…)` -/
def validated (url : String) : Fetch Unit :=
  (validateOutboundUrl lib.toUrlLib url s.allowPrivate s.allowedHosts false).embed FetchOp.validation
    (fun _ r => r) FetchError.raised

/-- The check of the declared size. -/
def checkLength (contentLength : Option String) : Fetch Unit :=
  match contentLength.filter fun length => !length.isEmpty with
  | none => pure ()
  | some length => do
    let declared ← Fetch.ofExcept (lib.int length)
    if (s.maxBytes : ℤ) < declared then
      .raise (.audioTooLarge s!"source is larger than {s.maxBytes} bytes")

/-- The `try` of `fetch_url`: the URL to go on with, or the file. -/
def receive (url : String) (response : Response) : Fetch (String ⊕ Path) :=
  if response.statusCode ∈ redirectCodes then
    match response.location.filter fun location => !location.isEmpty with
    | none => .raise (.raised (.forbiddenUrl "redirect without Location header"))
    | some location => do
      let url ← Fetch.ofExcept (lib.urljoin url location)
      return .inl url
  else do
    Fetch.ofExcept (lib.raiseForStatus response)
    checkLength lib s response.contentLength
    let dest ← destPath lib s.destDir (some (lib.urlPath url))
    writeStream "download" response.body dest s.maxBytes
    return .inr dest

/-- The body of the loop of `fetch_url`. -/
def hop (url : String) : Fetch (String ⊕ Path) := do
  validated lib s url
  Fetch.ofExcept (lib.buildRequest url)
  let response ← send url
  (receive lib s url response).ensuring aclose

/-- The loop of `fetch_url`, with as many rounds to go. -/
def fetchFrom : ℕ → String → Fetch Path
  | 0, url => .raise (.raised (.forbiddenUrl ("too many redirects fetching " ++ lib.repr url)))
  | n + 1, url => do
    match ← hop lib s url with
    | .inl url => fetchFrom n url
    | .inr dest => return dest

/-- `fetch_url` -/
def fetchUrl (url : String) : Fetch Path := do
  enterClient
  -- the source closes the client before its last `raise`; either way it is closed once
  (fetchFrom lib s (maxRedirects + 1) url).ensuring exitClient

/-- What `while chunk := await upload.read(…)` reads: up to an empty chunk. -/
def Stream.untilEmpty (body : Stream) : Stream where
  chunks := body.chunks.takeWhile fun chunk => !chunk.isEmpty
  failure := if body.chunks.any List.isEmpty then none else body.failure

/-- `save_upload` -/
def saveUpload (filename : Option String) (upload : Stream) (destDir : Path) (maxBytes : ℕ) :
    Fetch Path := do
  let dest ← destPath lib destDir filename
  writeStream "upload" upload.untilEmpty dest maxBytes
  return dest

end Source

/-! ### Files -/

/-- The content of every file there is. -/
abbrev Files := Path → Option Bytes

abbrev FetchLog := List (Proc.Asked FetchOp.Answer)

/-- What an operation does to the files. -/
def effect (files : Files) : Proc.Asked FetchOp.Answer → Files
  | ⟨.openFile dest, .ok ()⟩ => Function.update files dest (some [])
  | ⟨.write dest chunk, .ok ()⟩ => Function.update files dest (some ((files dest).getD [] ++ chunk))
  | ⟨.openFile dest, .error f⟩ | ⟨.write dest _, .error f⟩ | ⟨.closeFile dest, .error f⟩ =>
    Function.update files dest f.left
  | ⟨.unlink dest, ()⟩ => Function.update files dest none
  | _ => files

def after (files : Files) (log : FetchLog) : Files := log.foldl effect files

/-- The file an operation is on. -/
def FetchOp.file? : FetchOp → Option Path
  | openFile dest | write dest _ | closeFile dest | unlink dest => some dest
  | _ => none

/-- The URL it sends a request to. -/
def FetchOp.url? : FetchOp → Option String
  | send url => some url
  | _ => none

/-- The requests of a run. -/
def sent (log : FetchLog) : List String := log.filterMap fun x => x.1.url?

section Files

variable {files : Files} {log log' : FetchLog} {p dest : Path}

theorem after_append (files : Files) (log log' : FetchLog) :
    after files (log ++ log') = after (after files log) log' := List.foldl_append ..

theorem after_cons (files : Files) (x : Proc.Asked FetchOp.Answer) (log : FetchLog) :
    after files (x :: log) = after (effect files x) log := rfl

theorem sent_append (log log' : FetchLog) : sent (log ++ log') = sent log ++ sent log' :=
  List.filterMap_append

/-- An operation changes no other file. -/
theorem effect_other {x : Proc.Asked FetchOp.Answer} (h : x.1.file? ≠ some p) :
    effect files x p = files p := by
  obtain ⟨o, r⟩ := x
  cases o with
  | openFile d | write d c | closeFile d =>
      have hne : p ≠ d := fun heq => h (congrArg some heq.symm)
      cases r with
      | ok u => first | exact Function.update_of_ne hne _ _ | rfl
      | error f => exact Function.update_of_ne hne _ _
  | unlink d => exact Function.update_of_ne (fun heq => h (congrArg some heq.symm)) _ _
  | _ => rfl

theorem after_other (h : ∀ x ∈ log, x.1.file? ≠ some p) : after files log p = files p := by
  induction log generalizing files with
  | nil => rfl
  | cons x log ih =>
      obtain ⟨hx, hlog⟩ := List.forall_mem_cons.mp h
      rw [after_cons, ih hlog, effect_other hx]

/-- A run that asks for no file leaves all of them. -/
theorem after_of_no_file (h : ∀ x ∈ log, x.1.file? = none) : after files log = files :=
  funext fun p => after_other fun x hx heq => by simp [h x hx] at heq

theorem sent_eq_nil_iff : sent log = [] ↔ ∀ x ∈ log, x.1.url? = none :=
  List.filterMap_eq_nil_iff

end Files

/-- The whole body is in the file, within the limit, and no other file has changed. -/
structure Stored (body : Stream) (maxBytes : ℕ) (files files' : Files) (dest : Path) : Prop where
  read : body.failure = none
  content : files' dest = some body.chunks.flatten
  bounded : body.chunks.flatten.length ≤ maxBytes
  others : ∀ p, p ≠ dest → files' p = files p

/-- Every file is as it was, or gone. -/
def NoneNew (files files' : Files) : Prop := ∀ p, files' p = files p ∨ files' p = none

/-! ### Writing a stream -/

section Writing

variable {what : String} {dest : Path} {maxBytes received : ℕ} {failure : Option Exn}
  {chunks : List Bytes} {log : FetchLog} {out : Except FetchError Unit}

/-- What an operation on a file that may fail comes to. -/
theorem ofFile_ran {r : Except FileFailure Unit} (h : (Fetch.ofFile r).Ran log out) :
    log = [] ∧ ((r = .ok () ∧ out = .ok ()) ∨ ∃ f, r = .error f ∧ out = .error (.raised f.exn)) := by
  cases r with
  | ok u => exact ⟨h.1, .inl ⟨rfl, h.2⟩⟩
  | error f => exact ⟨h.1, .inr ⟨f, rfl, h.2⟩⟩

theorem ofExcept_ran {α : Type} {r : Except Exn α} {out : Except FetchError α}
    (h : (Fetch.ofExcept r).Ran log out) :
    log = [] ∧ ((∃ a, r = .ok a ∧ out = .ok a) ∨ ∃ e, r = .error e ∧ out = .error (.raised e)) := by
  cases r with
  | ok a => exact ⟨h.1, .inl ⟨a, rfl, h.2⟩⟩
  | error e => exact ⟨h.1, .inr ⟨e, rfl, h.2⟩⟩

/-- **The loop over the chunks** appends them, within the limit. -/
theorem writeChunks_ran (h : (writeChunks what dest maxBytes received failure chunks).Ran log out)
    (hle : received ≤ maxBytes) :
    (∀ x ∈ log, x.1.file? = some dest) ∧
      (out = .ok () → failure = none ∧ received + chunks.flatten.length ≤ maxBytes ∧
        ∀ files content, files dest = some content →
          after files log dest = some (content ++ chunks.flatten)) := by
  induction chunks generalizing received log with
  | nil =>
      cases failure with
      | none =>
          obtain ⟨rfl, rfl⟩ := h
          refine ⟨by simp, fun _ => ⟨rfl, by simpa using hle, fun files content hc => ?_⟩⟩
          simpa [after] using hc
      | some e =>
          obtain ⟨rfl, rfl⟩ := h
          exact ⟨by simp, nofun⟩
  | cons chunk chunks ih =>
      rw [writeChunks] at h
      split at h
      · obtain ⟨rfl, rfl⟩ := h
        exact ⟨by simp, nofun⟩
      · rename_i hfits
        rcases Proc.ran_bind h with ⟨e, hwrite, rfl⟩ | ⟨u, first, rest, rfl, hwrite, hrest⟩
        · obtain ⟨r, _, rfl, hr⟩ := hwrite
          obtain ⟨rfl, -⟩ := ofFile_ran hr
          exact ⟨by simp [FetchOp.file?], nofun⟩
        · obtain ⟨r, _, rfl, hr⟩ := hwrite
          obtain ⟨rfl, ⟨rfl, -⟩ | ⟨f, -, herror⟩⟩ := ofFile_ran hr
          · obtain ⟨hfile, hok⟩ := ih hrest (not_lt.mp hfits)
            refine ⟨List.forall_mem_cons.mpr ⟨rfl, hfile⟩, fun hout => ?_⟩
            obtain ⟨hread, hbound, hcontent⟩ := hok hout
            refine ⟨hread, by simpa [Nat.add_assoc] using hbound, fun files content hc => ?_⟩
            rw [List.singleton_append, after_cons, hcontent _ (content ++ chunk), List.flatten_cons,
              List.append_assoc]
            simp [effect, hc]
          · cases herror

/-- The body of the `try`. -/
theorem openAndWrite_ran {body : Stream}
    (h : (openFile dest >>= fun _ => (writeChunks what dest maxBytes 0 body.failure body.chunks).ensuring
      (closeFile dest)).Ran log out) :
    (∀ x ∈ log, x.1.file? = some dest) ∧
      (out = .ok () → ∀ files, Stored body maxBytes files (after files log) dest) := by
  rcases Proc.ran_bind h with ⟨e, hopen, rfl⟩ | ⟨u, first, rest, rfl, hopen, hrest⟩
  · obtain ⟨r, _, rfl, hr⟩ := hopen
    obtain ⟨rfl, -⟩ := ofFile_ran hr
    exact ⟨by simp [FetchOp.file?], nofun⟩
  · obtain ⟨r, _, rfl, hr⟩ := hopen
    obtain ⟨rfl, hopened⟩ := ofFile_ran hr
    obtain ⟨written, closed, out₁, out₂, rfl, hwrite, hclose, rfl⟩ := Proc.ran_ensuring hrest
    obtain ⟨r', _, rfl, hr'⟩ := hclose
    obtain ⟨rfl, hclosed⟩ := ofFile_ran hr'
    obtain ⟨hfile, hok⟩ := writeChunks_ran hwrite (Nat.zero_le _)
    have hall : ∀ x ∈ [⟨FetchOp.openFile dest, r⟩] ++ (written ++ [⟨FetchOp.closeFile dest, r'⟩]),
        x.1.file? = some dest := by
      simp only [List.forall_mem_append, List.forall_mem_singleton]
      exact ⟨rfl, hfile, rfl⟩
    refine ⟨hall, fun hout files => ?_⟩
    obtain ⟨rfl, -⟩ := hopened.resolve_right (by rintro ⟨f, -, herror⟩; cases herror)
    rcases hclosed with ⟨rfl, rfl⟩ | ⟨f, -, rfl⟩
    · obtain ⟨hread, hbound, hcontent⟩ := hok hout
      refine ⟨hread, ?_, by simpa using hbound, fun p hp => after_other fun x hx heq => ?_⟩
      · rw [after_append, after_append]
        exact hcontent _ [] (Function.update_self _ _ _)
      · exact hp (Option.some.inj (heq.symm.trans (hall x hx)))
    · cases hout

/-- **A stream** is stored whole, or its file is deleted. -/
theorem writeStream_ran {body : Stream} (h : (writeStream what body dest maxBytes).Ran log out) :
    (∀ x ∈ log, x.1.file? = some dest) ∧
      (out = .ok () → ∀ files, Stored body maxBytes files (after files log) dest) ∧
      ∀ e, out = .error e → ∀ files, NoneNew files (after files log) := by
  rcases Proc.ran_guard h with ⟨u, htry, rfl⟩ | ⟨e, first, rest, rfl, htry, hhandler⟩
  · obtain ⟨hfile, hok⟩ := openAndWrite_ran htry
    exact ⟨hfile, hok, nofun⟩
  · obtain ⟨hfile, -⟩ := openAndWrite_ran htry
    obtain ⟨u, _, rfl, rfl, rfl⟩ := hhandler
    have hall : ∀ x ∈ first ++ [⟨FetchOp.unlink dest, u⟩], x.1.file? = some dest := by
      simp only [List.forall_mem_append, List.forall_mem_singleton]
      exact ⟨hfile, rfl⟩
    refine ⟨hall, nofun, fun _ _ files p => ?_⟩
    by_cases hp : p = dest
    · rw [after_append, hp]
      exact .inr (Function.update_self _ _ _)
    · refine .inl (after_other fun x hx heq => hp ?_)
      exact Option.some.inj (heq.symm.trans (hall x hx))

end Writing

/-! ### Fetching -/

/-- An operation that touches no file and sends nothing. -/
def FetchOp.Quiet (o : FetchOp) : Prop := o.file? = none ∧ o.url? = none

section Fetching

variable {lib : HttpLib} {s : FetchSettings} {url : String} {log : FetchLog}

theorem validated_quiet {out : Except FetchError Unit} (h : (validated lib s url).Ran log out) :
    ∀ x ∈ log, x.1.Quiet := fun x hx => by
  obtain ⟨o, ho⟩ := Proc.ran_embed h x hx
  rw [ho]
  exact ⟨rfl, rfl⟩

theorem destPath_quiet {destDir : Path} {nameHint : Option String} {out : Except FetchError Path}
    (h : (destPath lib destDir nameHint).Ran log out) : ∀ x ∈ log, x.1.Quiet := by
  rcases Proc.ran_bind h with ⟨e, hmkdir, rfl⟩ | ⟨u, first, rest, rfl, hmkdir, hrest⟩
  · obtain ⟨r, _, rfl, hr⟩ := hmkdir
    obtain ⟨rfl, -⟩ := ofExcept_ran hr
    exact List.forall_mem_singleton.mpr ⟨rfl, rfl⟩
  · obtain ⟨r, _, rfl, hr⟩ := hmkdir
    obtain ⟨rfl, -⟩ := ofExcept_ran hr
    obtain ⟨hex, _, rfl, rfl, -⟩ := hrest
    exact List.forall_mem_cons.mpr ⟨⟨rfl, rfl⟩, List.forall_mem_singleton.mpr ⟨rfl, rfl⟩⟩

theorem checkLength_quiet {contentLength : Option String} {out : Except FetchError Unit}
    (h : (checkLength lib s contentLength).Ran log out) : log = [] := by
  rw [checkLength] at h
  split at h
  · exact h.1
  · rcases Proc.ran_bind h with ⟨e, hint, -⟩ | ⟨declared, first, rest, rfl, hint, hrest⟩
    · exact (ofExcept_ran hint).1
    · obtain ⟨rfl, -⟩ := ofExcept_ran hint
      split at hrest
      · exact hrest.1
      · exact hrest.1

theorem after_quiet (h : ∀ x ∈ log, x.1.Quiet) (files : Files) : after files log = files :=
  after_of_no_file fun x hx => (h x hx).1

theorem sent_quiet (h : ∀ x ∈ log, x.1.Quiet) : sent log = [] :=
  sent_eq_nil_iff.mpr fun x hx => (h x hx).2

/-- Operations on one file send nothing. -/
theorem sent_of_file {dest : Path} (h : ∀ x ∈ log, x.1.file? = some dest) : sent log = [] :=
  sent_eq_nil_iff.mpr fun x hx => by
    have hfile := h x hx
    cases hop : x.1 <;> simp [hop, FetchOp.file?, FetchOp.url?] at hfile ⊢

theorem noneNew_quiet (h : ∀ x ∈ log, x.1.Quiet) (files : Files) : NoneNew files (after files log) :=
  fun p => .inl (congrFun (after_quiet h files) p)

/-- A new file for the stream, and the stream in it. -/
theorem store_ran {β : Type} {what : String} {body : Stream} {destDir : Path} {maxBytes : ℕ}
    {nameHint : Option String} {f : Path → β} {out : Except FetchError β}
    (h : (destPath lib destDir nameHint >>= fun dest =>
      writeStream what body dest maxBytes >>= fun _ => pure (f dest)).Ran log out) :
    sent log = [] ∧
      ((∃ dest, out = .ok (f dest) ∧ ∀ files, Stored body maxBytes files (after files log) dest) ∨
        ∃ e, out = .error e ∧ ∀ files, NoneNew files (after files log)) := by
  rcases Proc.ran_bind h with ⟨e, hpath, rfl⟩ | ⟨dest, first, rest, rfl, hpath, hrest⟩
  · have hquiet := destPath_quiet hpath
    exact ⟨sent_quiet hquiet, .inr ⟨e, rfl, noneNew_quiet hquiet⟩⟩
  · have hquiet := destPath_quiet hpath
    rcases Proc.ran_bind hrest with ⟨e, hwrite, rfl⟩ | ⟨u, written, nothing, rfl, hwrite, rfl, rfl⟩
    · obtain ⟨hfile, -, herror⟩ := writeStream_ran hwrite
      refine ⟨?_, .inr ⟨e, rfl, fun files => ?_⟩⟩
      · rw [sent_append, sent_quiet hquiet, sent_of_file hfile, List.append_nil]
      · rw [after_append, after_quiet hquiet]
        exact herror e rfl files
    · obtain ⟨hfile, hok, -⟩ := writeStream_ran hwrite
      rw [List.append_nil]
      refine ⟨?_, .inl ⟨dest, rfl, fun files => ?_⟩⟩
      · rw [sent_append, sent_quiet hquiet, sent_of_file hfile, List.append_nil]
      · rw [after_append, after_quiet hquiet]
        exact hok rfl files

/-- A response whose body is stored: no redirect, a good status and no declared size over the limit. -/
structure Accepted (lib : HttpLib) (s : FetchSettings) (response : Response) : Prop where
  notRedirect : response.statusCode ∉ redirectCodes
  status : lib.raiseForStatus response = .ok ()
  declared : (checkLength lib s response.contentLength).Ran [] (.ok ())

/-- **What a response is made of**: another URL, a file with its whole body, or an exception and no
new file. -/
theorem receive_ran {response : Response} {out : Except FetchError (String ⊕ Path)}
    (h : (receive lib s url response).Ran log out) :
    sent log = [] ∧
      ((∃ url', out = .ok (.inl url') ∧ log = []) ∨
        (∃ dest, out = .ok (.inr dest) ∧ Accepted lib s response ∧
          ∀ files, Stored response.body s.maxBytes files (after files log) dest) ∨
        ∃ e, out = .error e ∧ ∀ files, NoneNew files (after files log)) := by
  have hnothing : ∀ files, NoneNew files (after files []) := noneNew_quiet (by simp)
  rw [receive] at h
  split at h
  · split at h
    · obtain ⟨rfl, rfl⟩ := h
      exact ⟨rfl, .inr (.inr ⟨_, rfl, hnothing⟩)⟩
    · rcases Proc.ran_bind h with ⟨e, hjoin, rfl⟩ | ⟨url', first, rest, rfl, hjoin, rfl, rfl⟩
      · obtain ⟨rfl, -⟩ := ofExcept_ran hjoin
        exact ⟨rfl, .inr (.inr ⟨_, rfl, hnothing⟩)⟩
      · obtain ⟨rfl, -⟩ := ofExcept_ran hjoin
        exact ⟨rfl, .inl ⟨url', rfl, rfl⟩⟩
  · rename_i hcode
    rcases Proc.ran_bind h with ⟨e, hstatus, rfl⟩ | ⟨u, first, rest, rfl, hstatus, hrest⟩
    · obtain ⟨rfl, -⟩ := ofExcept_ran hstatus
      exact ⟨rfl, .inr (.inr ⟨_, rfl, hnothing⟩)⟩
    · obtain ⟨rfl, ⟨_, hgood, -⟩ | ⟨e, -, herror⟩⟩ := ofExcept_ran hstatus
      · rcases Proc.ran_bind hrest with ⟨e, hlength, rfl⟩ | ⟨u', first', rest', rfl, hlength, hstore⟩
        · obtain rfl := checkLength_quiet hlength
          exact ⟨rfl, .inr (.inr ⟨_, rfl, hnothing⟩)⟩
        · obtain rfl := checkLength_quiet hlength
          obtain ⟨hsent, ⟨dest, rfl, hstored⟩ | herror⟩ := store_ran hstore
          · exact ⟨hsent, .inr (.inl ⟨dest, rfl, ⟨hcode, hgood, hlength⟩, hstored⟩)⟩
          · exact ⟨hsent, .inr (.inr herror)⟩
      · cases herror

end Fetching

/-! ### The law of fetching -/

/-- Every request is sent right after its URL passed `validate_outbound_url`. -/
def Vetted (lib : HttpLib) (s : FetchSettings) (log : FetchLog) : Prop :=
  ∀ before url r rest, log = before ++ ⟨.send url, r⟩ :: rest →
    ∃ earlier checked, before = earlier ++ checked ∧ (validated lib s url).Ran checked (.ok ())

/-- The last response is the one that was accepted, and its whole body is in the file. -/
structure Fetched (lib : HttpLib) (s : FetchSettings) (log : FetchLog) (files : Files) (dest : Path)
    (response : Response) : Prop where
  last : ∃ before url rest, log = before ++ ⟨.send url, .ok response⟩ :: rest ∧ sent rest = []
  accepted : Accepted lib s response
  stored : Stored response.body s.maxBytes files (after files log) dest

/-- Closing the response or the client raised. -/
def ClosingFailed : Proc.Asked FetchOp.Answer → Prop
  | ⟨.aclose, .error _⟩ | ⟨.exitClient, .error _⟩ => True
  | _ => False

/-- What a run of `fetch_url` is held to. -/
structure FetchLaw (lib : HttpLib) (s : FetchSettings) (requests : ℕ) (log : FetchLog)
    (out : Except FetchError Path) : Prop where
  bounded : (sent log).length ≤ requests
  vetted : Vetted lib s log
  returned : ∀ dest, out = .ok dest → ∀ files, ∃ response, Fetched lib s log files dest response
  cleaned : ∀ e, out = .error e → ∀ files, NoneNew files (after files log) ∨
    (∃ x ∈ log, ClosingFailed x) ∧ ∃ dest response, Fetched lib s log files dest response

/-- A part of a run that leaves all files as they were. -/
structure Exchange (lib : HttpLib) (s : FetchSettings) (requests : ℕ) (log : FetchLog) : Prop where
  bounded : (sent log).length ≤ requests
  vetted : Vetted lib s log
  same : ∀ files, after files log = files

/-- What one round of the loop is held to: it comes to another URL, or to the end of the run. -/
def HopLaw (lib : HttpLib) (s : FetchSettings) (log : FetchLog)
    (out : Except FetchError (String ⊕ Path)) : Prop :=
  (∃ url, out = .ok (.inl url) ∧ Exchange lib s 1 log) ∨
    ∃ out' : Except FetchError Path, out = out'.map .inr ∧ FetchLaw lib s 1 log out'

section Law

variable {lib : HttpLib} {s : FetchSettings} {url : String} {log first rest : FetchLog} {m n : ℕ}
  {files : Files} {dest : Path} {response : Response} {out : Except FetchError Path}

theorem vetted_of_sent (h : sent log = []) : Vetted lib s log := by
  rintro before url r rest rfl
  have := sent_eq_nil_iff.mp h ⟨.send url, r⟩ (by simp)
  cases this

theorem Vetted.append (hfirst : Vetted lib s first) (hrest : Vetted lib s rest) :
    Vetted lib s (first ++ rest) := by
  intro before url r after heq
  rcases List.append_eq_append_iff.mp heq with ⟨between, rfl, hr⟩ | ⟨between, rfl, hr⟩
  · obtain ⟨earlier, checked, rfl, hchecked⟩ := hrest between url r after hr
    exact ⟨first ++ earlier, checked, by rw [List.append_assoc], hchecked⟩
  · cases between with
    | nil =>
        obtain ⟨earlier, checked, heq, hchecked⟩ := hrest [] url r after hr.symm
        obtain ⟨-, rfl⟩ := List.append_eq_nil_iff.mp heq.symm
        exact ⟨before, [], (List.append_nil _).symm, hchecked⟩
    | cons x between =>
        obtain ⟨rfl, -⟩ := List.cons.inj hr
        exact hfirst before url r between rfl

/-- A request after its validation. -/
theorem vetted_send {checked : FetchLog} {r : Except Exn Response} (hsent : sent checked = [])
    (h : (validated lib s url).Ran checked (.ok ())) :
    Vetted lib s (checked ++ [⟨.send url, r⟩]) := by
  intro before url' r' rest heq
  rcases List.append_eq_append_iff.mp heq with ⟨between, rfl, hr⟩ | ⟨between, rfl, hr⟩
  · cases between with
    | nil =>
        obtain ⟨⟨⟩, -⟩ := List.cons.inj hr
        exact ⟨[], checked, by simp, h⟩
    | cons x between => simp at hr
  · cases between with
    | nil =>
        obtain ⟨⟨⟩, -⟩ := List.cons.inj hr
        exact ⟨[], before, by simp, by simpa using h⟩
    | cons x between =>
        obtain ⟨rfl, -⟩ := List.cons.inj hr
        have := sent_eq_nil_iff.mp hsent ⟨.send url', r'⟩ (by simp)
        cases this

theorem Fetched.prepend (h : Fetched lib s rest files dest response)
    (hsame : ∀ files, after files first = files) :
    Fetched lib s (first ++ rest) files dest response := by
  obtain ⟨before, url, later, rfl, hlater⟩ := h.last
  refine ⟨⟨first ++ before, url, later, by simp, hlater⟩, h.accepted, ?_⟩
  rw [after_append, hsame]
  exact h.stored

theorem Fetched.append (h : Fetched lib s first files dest response)
    (hquiet : ∀ x ∈ rest, x.1.Quiet) : Fetched lib s (first ++ rest) files dest response := by
  obtain ⟨before, url, later, rfl, hlater⟩ := h.last
  refine ⟨⟨before, url, later ++ rest, by simp, ?_⟩, h.accepted, ?_⟩
  · rw [sent_append, hlater, sent_quiet hquiet, List.append_nil]
  · rw [after_append, after_quiet hquiet]
    exact h.stored

theorem Exchange.of_quiet (h : ∀ x ∈ log, x.1.Quiet) : Exchange lib s n log where
  bounded := by rw [sent_quiet h]; exact Nat.zero_le _
  vetted := vetted_of_sent (sent_quiet h)
  same := after_quiet h

theorem Exchange.append (h : Exchange lib s n log) (hrest : ∀ x ∈ rest, x.1.Quiet) :
    Exchange lib s n (log ++ rest) where
  bounded := by
    rw [sent_append, sent_quiet hrest, List.append_nil]
    exact h.bounded
  vetted := h.vetted.append (vetted_of_sent (sent_quiet hrest))
  same := fun files => by rw [after_append, h.same, after_quiet hrest]

/-- A URL is validated, and the request sent. -/
theorem exchange_send {checked : FetchLog} {r : Except Exn Response} (hquiet : ∀ x ∈ checked, x.1.Quiet)
    (h : (validated lib s url).Ran checked (.ok ())) :
    Exchange lib s 1 (checked ++ [⟨.send url, r⟩]) where
  bounded := by
    rw [sent_append, sent_quiet hquiet]
    exact le_rfl
  vetted := vetted_send (sent_quiet hquiet) h
  same := fun files => by
    rw [after_append, after_quiet hquiet]
    rfl

/-- What came before the run left all files as they were. -/
theorem FetchLaw.prepend (h : FetchLaw lib s n rest out) (hfirst : Exchange lib s m first) :
    FetchLaw lib s (m + n) (first ++ rest) out where
  bounded := by
    rw [sent_append, List.length_append]
    exact Nat.add_le_add hfirst.bounded h.bounded
  vetted := hfirst.vetted.append h.vetted
  returned := fun dest hout files => by
    obtain ⟨response, hfetched⟩ := h.returned dest hout files
    exact ⟨response, hfetched.prepend hfirst.same⟩
  cleaned := fun e hout files => by
    rcases h.cleaned e hout files with hnone | ⟨⟨x, hx, hfailed⟩, dest, response, hfetched⟩
    · refine .inl ?_
      rw [after_append, hfirst.same]
      exact hnone
    · refine .inr ⟨⟨x, List.mem_append_right _ hx, hfailed⟩, dest, response, ?_⟩
      exact hfetched.prepend hfirst.same

/-- A run that stops without a new file. -/
theorem FetchLaw.of_error {e : FetchError} (hbound : (sent log).length ≤ n) (hvetted : Vetted lib s log)
    (hnone : ∀ files, NoneNew files (after files log)) : FetchLaw lib s n log (.error e) where
  bounded := hbound
  vetted := hvetted
  returned := nofun
  cleaned := fun _ _ files => .inl (hnone files)

theorem Exchange.stopped (h : Exchange lib s n log) (e : FetchError) : FetchLaw lib s n log (.error e) :=
  .of_error h.bounded h.vetted fun files p => .inl (congrFun (h.same files) p)

theorem HopLaw.of_error {e : FetchError} (h : FetchLaw lib s 1 log (.error e)) :
    HopLaw lib s log (.error e) := .inr ⟨.error e, rfl, h⟩

/-- The response, or the client, is closed at the end. -/
theorem FetchLaw.close {o : FetchOp} {r : o.Answer} {closed : Except FetchError Unit}
    (h : FetchLaw lib s n log out) (hquiet : o.Quiet)
    (hfailed : ∀ e, closed = .error e → ClosingFailed ⟨o, r⟩) :
    FetchLaw lib s n (log ++ [⟨o, r⟩]) (closed.bind fun _ => out) := by
  have hrest : ∀ x ∈ [(⟨o, r⟩ : Proc.Asked FetchOp.Answer)], x.1.Quiet :=
    List.forall_mem_singleton.mpr hquiet
  have hfiles : ∀ files, after files (log ++ [⟨o, r⟩]) = after files log := fun files => by
    rw [after_append, after_quiet hrest]
  refine ⟨?_, h.vetted.append (vetted_of_sent (sent_quiet hrest)), fun dest hout files => ?_,
    fun e hout files => ?_⟩
  · rw [sent_append, sent_quiet hrest, List.append_nil]
    exact h.bounded
  · cases closed with
    | ok u =>
        obtain ⟨response, hfetched⟩ := h.returned dest hout files
        exact ⟨response, hfetched.append hrest⟩
    | error e => cases hout
  · rw [hfiles]
    have hlast : (⟨o, r⟩ : Proc.Asked FetchOp.Answer) ∈ log ++ [⟨o, r⟩] := by simp
    cases out with
    | ok dest =>
        cases closed with
        | ok u => cases hout
        | error e =>
            obtain ⟨response, hfetched⟩ := h.returned dest rfl files
            exact .inr ⟨⟨_, hlast, hfailed e rfl⟩, dest, response, hfetched.append hrest⟩
    | error e' =>
        rcases h.cleaned e' rfl files with hnone | ⟨⟨x, hx, hx'⟩, dest, response, hfetched⟩
        · exact .inl hnone
        · exact .inr ⟨⟨x, List.mem_append_left _ hx, hx'⟩, dest, response, hfetched.append hrest⟩

/-- Closing is one operation. -/
theorem aclose_ran {closed : Except FetchError Unit} (h : aclose.Ran log closed) :
    ∃ r, log = [⟨FetchOp.aclose, r⟩] ∧ ∀ e, closed = .error e → ClosingFailed ⟨FetchOp.aclose, r⟩ := by
  obtain ⟨r, _, rfl, hr⟩ := h
  obtain ⟨rfl, ⟨a, rfl, rfl⟩ | ⟨e, rfl, rfl⟩⟩ := ofExcept_ran hr
  · exact ⟨_, rfl, nofun⟩
  · exact ⟨_, rfl, fun _ _ => trivial⟩

theorem exitClient_ran {closed : Except FetchError Unit} (h : exitClient.Ran log closed) :
    ∃ r, log = [⟨FetchOp.exitClient, r⟩] ∧
      ∀ e, closed = .error e → ClosingFailed ⟨FetchOp.exitClient, r⟩ := by
  obtain ⟨r, _, rfl, hr⟩ := h
  obtain ⟨rfl, ⟨a, rfl, rfl⟩ | ⟨e, rfl, rfl⟩⟩ := ofExcept_ran hr
  · exact ⟨_, rfl, nofun⟩
  · exact ⟨_, rfl, fun _ _ => trivial⟩

/-- From the response on, until it is closed. -/
theorem received_law {received : FetchLog} {out : Except FetchError (String ⊕ Path)}
    (h : (receive lib s url response).Ran received out) (hfirst : Exchange lib s 1 first)
    (hlast : ∃ before, first = before ++ [⟨.send url, .ok response⟩]) :
    HopLaw lib s (first ++ received) out := by
  obtain ⟨hsent, hcases⟩ := receive_ran h
  have hbound : (sent (first ++ received)).length ≤ 1 := by
    rw [sent_append, hsent, List.append_nil]
    exact hfirst.bounded
  have hvetted := hfirst.vetted.append (vetted_of_sent hsent)
  have hafter : ∀ files, after files (first ++ received) = after files received := fun files => by
    rw [after_append, hfirst.same]
  rcases hcases with ⟨url', rfl, rfl⟩ | ⟨dest, rfl, haccepted, hstored⟩ | ⟨e, rfl, hnone⟩
  · rw [List.append_nil]
    exact .inl ⟨url', rfl, hfirst⟩
  · obtain ⟨before, rfl⟩ := hlast
    refine .inr ⟨.ok dest, rfl, hbound, hvetted, ?_, nofun⟩
    rintro _ ⟨⟩ files
    refine ⟨response, ⟨before, url, received, by simp, hsent⟩, haccepted, ?_⟩
    rw [hafter]
    exact hstored files
  · refine .of_error (.of_error hbound hvetted fun files => ?_)
    rw [hafter]
    exact hnone files

theorem HopLaw.close {r : FetchOp.aclose.Answer} {closed : Except FetchError Unit}
    {out : Except FetchError (String ⊕ Path)} (h : HopLaw lib s log out)
    (hfailed : ∀ e, closed = .error e → ClosingFailed ⟨.aclose, r⟩) :
    HopLaw lib s (log ++ [⟨.aclose, r⟩]) (closed.bind fun _ => out) := by
  rcases h with ⟨url', rfl, hexchange⟩ | ⟨out', rfl, hlaw⟩
  · have hclosed : Exchange lib s 1 (log ++ [⟨.aclose, r⟩]) :=
      hexchange.append (List.forall_mem_singleton.mpr ⟨rfl, rfl⟩)
    cases closed with
    | ok u => exact .inl ⟨url', rfl, hclosed⟩
    | error e => exact .of_error (hclosed.stopped e)
  · refine .inr ⟨closed.bind fun _ => out', ?_, hlaw.close ⟨rfl, rfl⟩ hfailed⟩
    cases closed <;> rfl

/-- **One round**: at most one request, vetted, and another URL with all files as they were, or a run
that meets the law. -/
theorem hop_law {out : Except FetchError (String ⊕ Path)} (h : (hop lib s url).Ran log out) :
    HopLaw lib s log out := by
  rcases Proc.ran_bind h with ⟨e, hchecked, rfl⟩ | ⟨u, checked, rest, rfl, hchecked, hrest⟩
  · exact .of_error ((Exchange.of_quiet (validated_quiet hchecked)).stopped e)
  have hquiet := validated_quiet hchecked
  rcases Proc.ran_bind hrest with ⟨e, hbuild, rfl⟩ | ⟨u', built, rest', rfl, hbuild, hrest'⟩
  · obtain ⟨rfl, -⟩ := ofExcept_ran hbuild
    rw [List.append_nil]
    exact .of_error ((Exchange.of_quiet hquiet).stopped e)
  obtain ⟨rfl, -⟩ := ofExcept_ran hbuild
  rw [List.nil_append]
  rcases Proc.ran_bind hrest' with ⟨e, hsend, rfl⟩ | ⟨response, sending, rest'', rfl, hsend, hreceive⟩
  · obtain ⟨r, _, rfl, hr⟩ := hsend
    obtain ⟨rfl, -⟩ := ofExcept_ran hr
    exact .of_error ((exchange_send hquiet hchecked).stopped e)
  · obtain ⟨r, _, rfl, hr⟩ := hsend
    obtain ⟨rfl, ⟨_, rfl, heq⟩ | ⟨e, -, herror⟩⟩ := ofExcept_ran hr
    · obtain rfl := Except.ok.inj heq
      obtain ⟨received, closing, out₁, closed, rfl, hreceived, hclose, rfl⟩ := Proc.ran_ensuring hreceive
      obtain ⟨c, rfl, hfailed⟩ := aclose_ran hclose
      have hlaw := received_law hreceived (exchange_send hquiet hchecked) ⟨checked, rfl⟩
      simpa only [List.append_assoc] using hlaw.close hfailed
    · cases herror

/-- **The loop**: at most one request in each round. -/
theorem fetchFrom_law (h : (fetchFrom lib s n url).Ran log out) : FetchLaw lib s n log out := by
  induction n generalizing url log with
  | zero =>
      obtain ⟨rfl, rfl⟩ := h
      exact (Exchange.of_quiet (by simp)).stopped _
  | succ n ih =>
      have hmono : ∀ {log out}, FetchLaw lib s 1 log out → FetchLaw lib s (n + 1) log out :=
        fun hlaw => { hlaw with bounded := hlaw.bounded.trans (Nat.le_add_left ..) }
      rcases Proc.ran_bind h with ⟨e, hhop, rfl⟩ | ⟨found, first, rest, rfl, hhop, hrest⟩
      · rcases hop_law hhop with ⟨url', heq, -⟩ | ⟨out', heq, hlaw⟩
        · cases heq
        · cases out' with
          | ok dest => cases heq
          | error e' =>
              cases heq
              exact hmono hlaw
      · rcases hop_law hhop with ⟨url', heq, hexchange⟩ | ⟨out', heq, hlaw⟩
        · cases heq
          rw [Nat.add_comm]
          exact (ih hrest).prepend hexchange
        · cases out' with
          | error e => cases heq
          | ok dest =>
              cases heq
              obtain ⟨rfl, rfl⟩ := hrest
              rw [List.append_nil]
              exact hmono hlaw

theorem fetchUrl_law (h : (fetchUrl lib s url).Ran log out) :
    FetchLaw lib s (maxRedirects + 1) log out := by
  rcases Proc.ran_bind h with ⟨e, henter, rfl⟩ | ⟨u, first, rest, rfl, henter, hrest⟩
  · obtain ⟨r, _, rfl, hr⟩ := henter
    obtain ⟨rfl, -⟩ := ofExcept_ran hr
    exact (Exchange.of_quiet (List.forall_mem_singleton.mpr ⟨rfl, rfl⟩)).stopped e
  · obtain ⟨r, _, rfl, hr⟩ := henter
    obtain ⟨rfl, -⟩ := ofExcept_ran hr
    obtain ⟨fetched, closing, out₁, closed, rfl, hfetch, hclose, rfl⟩ := Proc.ran_ensuring hrest
    obtain ⟨c, rfl, hfailed⟩ := exitClient_ran hclose
    have hclosed := (fetchFrom_law hfetch).close ⟨rfl, rfl⟩ hfailed
    rw [← Nat.zero_add (maxRedirects + 1)]
    exact hclosed.prepend (.of_quiet (List.forall_mem_singleton.mpr ⟨rfl, rfl⟩))

/-- What a run of `save_upload` is held to. -/
structure SaveLaw (upload : Stream) (maxBytes : ℕ) (log : FetchLog) (out : Except FetchError Path) :
    Prop where
  nothingSent : sent log = []
  returned : ∀ dest, out = .ok dest → ∀ files, Stored upload maxBytes files (after files log) dest
  cleaned : ∀ e, out = .error e → ∀ files, NoneNew files (after files log)

theorem saveUpload_law {filename : Option String} {upload : Stream} {destDir : Path} {maxBytes : ℕ}
    (h : (saveUpload lib filename upload destDir maxBytes).Ran log out) :
    SaveLaw upload.untilEmpty maxBytes log out := by
  obtain ⟨hsent, ⟨dest, rfl, hstored⟩ | ⟨e, rfl, hnone⟩⟩ := store_ran (f := id) h
  · refine ⟨hsent, ?_, nofun⟩
    rintro _ ⟨⟩ files
    exact hstored files
  · exact ⟨hsent, nofun, fun _ _ files => hnone files⟩

end Law

/-- **Fetching and saving** terminate however they are answered: at most six requests, each to a URL
that was just vetted; a file with the whole body of the last response, or of the upload, within the
limit; and no new file where anything but closing failed. -/
theorem fetched_or_gone (lib : HttpLib) (s : FetchSettings) (url : String)
    (filename : Option String) (upload : Stream) (answers : ℕ → ∀ o : FetchOp, o.Answer) :
    let fetched := (fetchUrl lib s url).exec answers 0
    let saved := (saveUpload lib filename upload s.destDir s.maxBytes).exec answers 0
    FetchLaw lib s 6 fetched.1 fetched.2 ∧ SaveLaw upload.untilEmpty s.maxBytes saved.1 saved.2 :=
  ⟨fetchUrl_law (Proc.ran_exec answers 0 _), saveUpload_law (Proc.ran_exec answers 0 _)⟩

end Vemsa.Pipeline
