import RevenueOS.Lib.Except
import RevenueOS.Lib.Slots
import RevenueOS.Lib.Trace
import RevenueOS.Workflows.Triggers

/-!
# RevenueOS.Documents.Scanning — uploads, their scan and their download

One file after `request_upload`: its row, the object under its key and the presigned upload that may be repeated
until it expires, with `complete_upload` and `download_url` of `application/crm/documents.py`, `_scan_file_once` and
`_finalize` of `celery/tasks/files.py`, and what they use of `integrations/storage.py`.  `complete_upload` is two
steps, its `head` and its transaction; a scan is four: the read of the row, the inspection, the scanner, `_finalize`.
Scans run any number of times and at the same time, so that a retry or a duplicate is one more of them.

`sha256` is a parameter.  The columns that are written and never read, `scan_detail` and `scanned_at`, are left out,
and so is the transaction of `_record_retry`, which writes the first of them.

* `scanned_bytes_served`: what `download_url` serves is what the scanner judged clean, in every run in which no
  upload replaces the object of a clean file, or one that a scan has inspected and may still find clean.
-/

namespace RevenueOS.Documents

open RevenueOS.Py RevenueOS.Lib RevenueOS.Workflows

/-! ## What is inspected -/

abbrev Bytes := List UInt8

/-- A bytes literal. -/
def ascii (s : String) : Bytes := s.toList.map fun c => UInt8.ofNat c.toNat

/-- `PROTECTED_UPLOAD_LIMIT`. -/
def protectedUploadLimit : ℕ := 50 * 1024 * 1024

/-- `UPLOAD_TTL_SECONDS`. -/
def uploadTtlSeconds : ℤ := 900

/-- `DOWNLOAD_TTL_SECONDS`. -/
def downloadTtlSeconds : ℕ := 300

/-- `MAGIC_BYTES`. -/
def magicBytes : List (String × List Bytes) :=
  [("application/pdf", [ascii "%PDF-"]),
    ("image/png", [137 :: ascii "PNG\r\n\x1a\n"]),
    ("image/jpeg", [[255, 216, 255]]),
    ("image/gif", [ascii "GIF87a", ascii "GIF89a"]),
    ("image/webp", [ascii "RIFF"]),
    ("application/zip", [ascii "PK\x03\x04"])]

/-- `verify_magic_bytes`. -/
def verifyMagicBytes (declaredMime : String) (head : Bytes) : Bool :=
  match magicBytes.lookup declaredMime with
  | none => true
  | some signatures => signatures.any (·.isPrefixOf head)

/-- Upper-case letters as lower-case ones. -/
def lowerByte (b : UInt8) : UInt8 := if 65 ≤ b ∧ b ≤ 90 then b + 32 else b

/-- `re.search` for one of some texts, ignoring the case; the texts are in lower case. -/
def searchAny (texts : List String) (sample : Bytes) : Bool :=
  (sample.map lowerByte).tails.any fun tail => texts.any fun text => (ascii text).isPrefixOf tail

/-- `_UNSAFE_SVG`. -/
def unsafeSvg : List String := ["<script", "javascript:", "onload=", "onerror="]

/-- `_PDF_JS`. -/
def pdfJs : List String :=
  ["/javascript", "/js ", "/js\t", "/js\n", "/js\r", "/js\x0b", "/js\x0c", "/openaction", "/launch"]

/-- `bytes.lstrip()`. -/
def lstripBytes (sample : Bytes) : Bytes := sample.dropWhile (ascii " \t\n\r\x0b\x0c").contains

/-- `content_is_safe`; a text is the reason for which it is not. -/
def contentIsSafe (declaredMime : String) (sample : Bytes) : Option String :=
  let isSvg := declaredMime = "image/svg+xml" || (lstripBytes sample).take 5 = ascii "<svg "
  if isSvg && searchAny unsafeSvg sample then some "SVG contains active content"
  else if declaredMime = "application/pdf" && searchAny pdfJs sample then
    some "PDF contains JavaScript or an automatic action"
  else none

/-- What `inspect_for_scan` returns. -/
structure Inspection where
  sha256 : String
  sizeBytes : ℕ
  sample : Bytes

/-- `inspect_for_scan`, on the object it streams. -/
def inspectForScan (sha256 : Bytes → String) (content : Bytes) : Option Inspection :=
  if protectedUploadLimit < content.length then none
  else some ⟨sha256 content, content.length, content.take 1048576⟩

/-- The reason for which a file is rejected before it is scanned. -/
def Inspection.reason (inspected : Inspection) (declaredMime : String) (expectedSize : ℕ) : Option String :=
  if inspected.sizeBytes ≠ expectedSize then some "object size changed after upload completion"
  else if verifyMagicBytes declaredMime inspected.sample = false then
    some "magic bytes do not match the declared content type"
  else contentIsSafe declaredMime inspected.sample

/-- How clamd can be found: not configured, not reachable, or with an answer. -/
inductive ClamReply where
  | unconfigured
  | unreachable
  | answer (verdict : String)

inductive ScanResult where
  | ok
  | queued (errorMessage : String)
  | failed (errorCode : String)
deriving DecidableEq

/-- `ClamAvScanner.scan`, on the object it streams. -/
def clamScan (reply : ClamReply) (content : Bytes) : ScanResult :=
  match reply with
  | .unconfigured => .queued "Malware scanning is not configured; the file remains unavailable."
  | .unreachable => .queued "Malware scanning is temporarily unavailable."
  | .answer verdict =>
    if protectedUploadLimit < content.length then .failed "FILE_TOO_LARGE"
    else if endsWith verdict " OK" then .ok
    else if endsWith verdict " FOUND" then .failed "MALWARE_FOUND"
    else .queued "ClamAV returned an unrecognised scan response."

/-! ## The file -/

inductive ScanStatus where
  | pending | scanning | clean | quarantined | rejected
deriving DecidableEq

/-- `scan_status in {"clean", "quarantined", "rejected"}`. -/
def ScanStatus.final : ScanStatus → Bool
  | .pending => false
  | .scanning => false
  | .clean => true
  | .quarantined => true
  | .rejected => true

inductive FileError where
  | notFound (message : String)
  | forbidden (message : String)
  | validation (message : String)
  | featureNotAvailable (message : String)
  | providerUnavailable (message : String)
  | clientError
deriving DecidableEq

/-- The columns of a row of `files` that are read. -/
structure FileRow where
  tenantId : Uuid
  bucket : String
  objectKey : String
  sizeBytes : ℕ
  declaredMime : String
  scanStatus : ScanStatus
  sha256 : Option String

/-- An object of the store, as `head_object` and `get_object` show it. -/
structure StoredObject where
  content : Bytes
  contentType : String
  serverSideEncryption : String
deriving DecidableEq

/-- The presigned upload: what the store checks when it is used. -/
structure PresignedUpload where
  contentType : String
  maxBytes : ℕ
  expiresAt : ℤ

/-- `presign_upload`. -/
def presignUpload (contentType : String) (now : ℤ) : PresignedUpload :=
  ⟨contentType, protectedUploadLimit, now + uploadTtlSeconds⟩

/-- An upload through it, at a time: the object it stores, if it is not refused. -/
def PresignedUpload.accept (p : PresignedUpload) (now : ℤ) (content : Bytes) : Option StoredObject :=
  if now < p.expiresAt ∧ 1 ≤ content.length ∧ content.length ≤ p.maxBytes then
    some ⟨content, p.contentType, "aws:kms"⟩
  else none

/-- What `head_object` returns. -/
structure Head where
  contentLength : ℕ
  contentType : String
  serverSideEncryption : String

def StoredObject.head (object : StoredObject) : Head :=
  ⟨object.content.length, object.contentType, object.serverSideEncryption⟩

/-! ## `complete_upload` -/

/-- The checks of `complete_upload` under the row lock: the row it leaves, and whether it found the upload completed
before. -/
def FileRow.complete (row : FileRow) (head : Head) : Except FileError (FileRow × Bool) :=
  if row.scanStatus ≠ .pending then .ok (row, true)
  else if head.contentLength ≠ row.sizeBytes then
    .error (.validation "Stored object size does not match the upload intent.")
  else if head.contentType ≠ row.declaredMime then
    .error (.validation "Stored object content type does not match the upload intent.")
  else if head.serverSideEncryption ≠ "aws:kms" then
    .error (.validation "Stored object is not protected by AWS KMS encryption.")
  else .ok ({ row with scanStatus := .scanning }, false)

/-- Where a call of `complete_upload` stands; of what it returns `duplicate` is kept. -/
inductive Completion where
  | headed (head : Head)
  | returned (duplicate : Bool)
  | raised (error : FileError)

/-- `complete_upload` up to its `head`. -/
def Completion.start (configured visible : Bool) (object : Option StoredObject) : Completion :=
  if configured = false then
    .raised (.featureNotAvailable "Object storage and malware scanning have not been activated.")
  else if visible = false then .raised (.notFound "File not found.")
  else
    match object with
    | some object => .headed object.head
    | none => .raised .clientError

/-- A call of `complete_upload` after its transaction. -/
def Completion.ofComplete : Except FileError (FileRow × Bool) → Completion
  | .ok (_, duplicate) => .returned duplicate
  | .error error => .raised error

/-! ## `_scan_file_once` -/

/-- Where a call of `_scan_file_once` stands; with a state to record it has what `_finalize` is called with, and the
content the scanner was given. -/
inductive ScanTask where
  | loaded (declaredMime : String) (expectedSize : ℕ)
  | inspected (sha256 : String)
  | judged (state : ScanStatus) (sha256 : String) (scanned : Option Bytes)
  | returned (state : ScanStatus)
  | raised (error : FileError)

namespace ScanTask

/-- The read of the row. -/
def start (row : FileRow) : ScanTask :=
  if row.scanStatus = .scanning then .loaded row.declaredMime row.sizeBytes else .returned row.scanStatus

/-- The inspection; the store may not be reachable. -/
def inspect (sha256 : Bytes → String) (declaredMime : String) (expectedSize : ℕ) (reachable : Bool)
    (object : Option StoredObject) : ScanTask :=
  match if reachable then object.bind (fun o => inspectForScan sha256 o.content) else none with
  | none => .raised (.providerUnavailable "Stored object inspection is temporarily unavailable.")
  | some inspection =>
    match inspection.reason declaredMime expectedSize with
    | some _ => .judged .rejected inspection.sha256 none
    | none => .inspected inspection.sha256

/-- The call of the scanner. -/
def scan (sha256 : String) (reply : ClamReply) (object : Option StoredObject) : ScanTask :=
  match object with
  | none => .raised .clientError
  | some object =>
    match clamScan reply object.content with
    | .queued errorMessage => .raised (.providerUnavailable errorMessage)
    | .ok => .judged .clean sha256 (some object.content)
    | .failed _ => .judged .quarantined sha256 (some object.content)

/-- A scan that has inspected the object and may still find it clean. -/
def mayFindClean : ScanTask → Bool
  | .inspected _ => true
  | .judged state _ _ => state = .clean
  | _ => false

end ScanTask

/-! ## The system -/

/-- A file; beside what the source keeps, the content that was scanned for the recorded state. -/
structure FileSystem where
  row : FileRow
  presigned : Option PresignedUpload
  object : Option StoredObject
  completions : List Completion
  scans : List ScanTask
  scanned : Option Bytes

inductive FileStep where
  | upload (now : ℤ) (content : Bytes)
  | head (configured visible : Bool)
  | complete (k : ℕ) (visible : Bool)
  | startScan
  | inspect (k : ℕ) (reachable : Bool)
  | scan (k : ℕ) (reply : ClamReply)
  | finalize (k : ℕ)

/-- What `download_url` signs. -/
structure DownloadUrl where
  bucket : String
  key : String
  expiresInSeconds : ℕ
deriving DecidableEq

/-- `assert_download_allowed`. -/
def assertDownloadAllowed (scanStatus : ScanStatus) (fileTenantId requesterTenantId : Uuid) : Except FileError Unit :=
  if fileTenantId ≠ requesterTenantId then .error (.forbidden "This file belongs to another organisation.")
  else if scanStatus ≠ .clean then .error (.validation "This file is not yet available for download.")
  else .ok ()

namespace FileSystem

/-- A file after `request_upload`; without a configured store nothing is presigned. -/
def requested (tenantId : Uuid) (bucket objectKey declaredMime : String) (sizeBytes : ℕ) (configured : Bool)
    (now : ℤ) : FileSystem where
  row := ⟨tenantId, bucket, objectKey, sizeBytes, declaredMime, .pending, none⟩
  presigned := if configured then some (presignUpload declaredMime now) else none
  object := none
  completions := []
  scans := []
  scanned := none

variable (s : FileSystem)

/-- The object an upload stores, if it is not refused. -/
def accept (now : ℤ) (content : Bytes) : Option StoredObject := s.presigned.bind fun p => p.accept now content

/-- The transaction of `complete_upload`. -/
def completeUpload (k : ℕ) (head : Head) (visible : Bool) : FileSystem :=
  if visible = false then { s with completions := s.completions.set k (.raised (.notFound "File not found.")) }
  else
    { s with
      row := match s.row.complete head with
        | .ok (row, _) => row
        | .error _ => s.row
      completions := s.completions.set k (.ofComplete (s.row.complete head)) }

/-- `_finalize`. -/
def finalizeScan (k : ℕ) (state : ScanStatus) (sha256 : String) (scanned : Option Bytes) : FileSystem :=
  if s.row.scanStatus.final then { s with scans := s.scans.set k (.returned s.row.scanStatus) }
  else
    { s with
      row := { s.row with scanStatus := state, sha256 := some sha256 }
      scans := s.scans.set k (.returned state)
      scanned := scanned }

/-- `download_url`; the caller may not see the file. -/
def downloadUrl (visible : Bool) (requesterTenantId : Uuid) : Except FileError DownloadUrl := do
  if visible = false then throw (.notFound "File not found.")
  assertDownloadAllowed s.row.scanStatus s.row.tenantId requesterTenantId
  return ⟨s.row.bucket, s.row.objectKey, downloadTtlSeconds⟩

/-- One step, with `hashlib.sha256` as a parameter. -/
def step (sha256 : Bytes → String) (s : FileSystem) : FileStep → FileSystem
  | .upload now content => { s with object := (s.accept now content).or s.object }
  | .head configured visible =>
    { s with completions := s.completions ++ [.start configured visible s.object] }
  | .complete k visible =>
    match s.completions[k]? with
    | some (.headed head) => s.completeUpload k head visible
    | _ => s
  | .startScan => { s with scans := s.scans ++ [.start s.row] }
  | .inspect k reachable =>
    match s.scans[k]? with
    | some (.loaded declaredMime expectedSize) =>
      { s with scans := s.scans.set k (.inspect sha256 declaredMime expectedSize reachable s.object) }
    | _ => s
  | .scan k reply =>
    match s.scans[k]? with
    | some (.inspected digest) => { s with scans := s.scans.set k (.scan digest reply s.object) }
    | _ => s
  | .finalize k =>
    match s.scans[k]? with
    | some (.judged state digest scanned) => s.finalizeScan k state digest scanned
    | _ => s

end FileSystem

/-! ## What is served was scanned -/

/-- **What is served was scanned**: when `download_url` returns, the object is there, its content is the one the
scanner found clean, and its digest is recorded. -/
def ServesScanned (sha256 : Bytes → String) (s : FileSystem) : Prop :=
  ∀ visible requesterTenantId url, s.downloadUrl visible requesterTenantId = .ok url →
    ∃ object, s.object = some object ∧ s.scanned = some object.content ∧ s.row.sha256 = some (sha256 object.content)

/-- **The condition on a step**: an upload that changes the object comes before the file is clean, and while no scan
that has inspected the object may still find it clean. -/
def UploadsBefore (s : FileSystem) : FileStep → Prop
  | .upload now content => ∀ object, s.accept now content = some object → s.object ≠ some object →
      s.row.scanStatus ≠ .clean ∧ (s.row.scanStatus.final = false → ∀ task ∈ s.scans, task.mayFindClean = false)
  | _ => True

/-- What a scan has of the object, if it may find it clean. -/
def ScanTask.Current (sha256 : Bytes → String) (object : Option StoredObject) (task : ScanTask) : Prop :=
  match task with
  | .inspected digest => ∃ o, object = some o ∧ digest = sha256 o.content
  | .judged state digest scanned =>
    state = .clean → ∃ o, object = some o ∧ digest = sha256 o.content ∧ scanned = some o.content
  | _ => True

/-- The invariant of the runs that meet the condition. -/
structure ScanInv (sha256 : Bytes → String) (s : FileSystem) : Prop where
  clean : s.row.scanStatus = .clean →
    ∃ object, s.object = some object ∧ s.scanned = some object.content ∧ s.row.sha256 = some (sha256 object.content)
  current : s.row.scanStatus.final = false → ∀ task ∈ s.scans, task.Current sha256 s.object

theorem assertDownloadAllowed_clean {scanStatus : ScanStatus} {fileTenantId requesterTenantId : Uuid}
    (h : assertDownloadAllowed scanStatus fileTenantId requesterTenantId = .ok ()) : scanStatus = .clean := by
  unfold assertDownloadAllowed at h
  split_ifs at h with hother hstatus
  exact not_not.mp hstatus

/-- `download_url` returns for a clean file only. -/
theorem clean_of_downloadUrl {s : FileSystem} {visible : Bool} {requesterTenantId : Uuid} {url : DownloadUrl}
    (h : s.downloadUrl visible requesterTenantId = .ok url) : s.row.scanStatus = .clean := by
  unfold FileSystem.downloadUrl at h
  split_ifs at h with hvisible
  · cases h
  · obtain ⟨_, hallowed, -⟩ := bind_eq_ok.mp h
    exact assertDownloadAllowed_clean hallowed

section Sha256

variable {sha256 : Bytes → String}

theorem servesScanned_of_inv {s : FileSystem} (hs : ScanInv sha256 s) : ServesScanned sha256 s :=
  fun _ _ _ h => hs.clean (clean_of_downloadUrl h)

theorem current_of_not_mayFindClean {object : Option StoredObject} {task : ScanTask}
    (h : task.mayFindClean = false) : task.Current sha256 object := by
  cases task with
  | inspected digest => cases h
  | judged state digest scanned => exact fun hclean => absurd hclean (of_decide_eq_false h)
  | _ => trivial

theorem current_start (row : FileRow) (object : Option StoredObject) : (ScanTask.start row).Current sha256 object := by
  unfold ScanTask.start
  split_ifs <;> trivial

theorem current_inspect (declaredMime : String) (expectedSize : ℕ) (reachable : Bool) (object : Option StoredObject) :
    (ScanTask.inspect sha256 declaredMime expectedSize reachable object).Current sha256 object := by
  unfold ScanTask.inspect
  split
  · trivial
  · next inspection hinspect =>
    split
    · exact fun hclean => by cases hclean
    · cases reachable with
      | false => cases hinspect
      | true =>
        obtain ⟨o, hobject, hinspect⟩ := Option.bind_eq_some_iff.mp hinspect
        unfold inspectForScan at hinspect
        split_ifs at hinspect
        obtain rfl := Option.some.inj hinspect
        exact ⟨o, hobject, rfl⟩

/-- The scanner is given the object that was inspected. -/
theorem current_scan {digest : String} {object : Option StoredObject} (reply : ClamReply)
    (h : (ScanTask.inspected digest).Current sha256 object) :
    (ScanTask.scan digest reply object).Current sha256 object := by
  obtain ⟨o, rfl, rfl⟩ := h
  unfold ScanTask.scan
  dsimp only
  split
  · trivial
  · exact fun _ => ⟨o, rfl, rfl, rfl⟩
  · exact fun hclean => by cases hclean

theorem scanInv_set {s : FileSystem} {k : ℕ} {task : ScanTask} (hs : ScanInv sha256 s)
    (htask : s.row.scanStatus.final = false → task.Current sha256 s.object) :
    ScanInv sha256 { s with scans := s.scans.set k task } :=
  ⟨hs.clean, fun hfinal => forall_mem_set (hs.current hfinal) (htask hfinal)⟩

theorem scanInv_upload {s : FileSystem} {now : ℤ} {content : Bytes} (hs : ScanInv sha256 s)
    (hc : UploadsBefore s (.upload now content)) : ScanInv sha256 (s.step sha256 (.upload now content)) := by
  unfold FileSystem.step
  dsimp only
  cases haccept : s.accept now content with
  | none => exact hs
  | some object =>
    by_cases hsame : s.object = some object
    · rw [Option.some_or, ← hsame]
      exact hs
    · obtain ⟨hclean, hscans⟩ := hc object haccept hsame
      refine ⟨fun h => absurd h hclean, fun hfinal task htask => ?_⟩
      exact current_of_not_mayFindClean (hscans hfinal task htask)

theorem complete_status {row row' : FileRow} {head : Head} {duplicate : Bool}
    (h : row.complete head = .ok (row', duplicate)) :
    row' = row ∨ row.scanStatus = .pending ∧ row'.scanStatus = .scanning := by
  unfold FileRow.complete at h
  split_ifs at h with hpending
  · exact .inl (Prod.mk.inj (Except.ok.inj h)).1.symm
  · obtain ⟨rfl, -⟩ := Prod.mk.inj (Except.ok.inj h)
    exact .inr ⟨not_not.mp hpending, rfl⟩

theorem scanInv_complete {s : FileSystem} {k : ℕ} {head : Head} {visible : Bool} (hs : ScanInv sha256 s) :
    ScanInv sha256 (s.completeUpload k head visible) := by
  unfold FileSystem.completeUpload
  split_ifs with hvisible
  · exact ⟨hs.clean, hs.current⟩
  · cases hrow : s.row.complete head with
    | error error => exact ⟨hs.clean, hs.current⟩
    | ok result =>
      obtain ⟨row, duplicate⟩ := result
      obtain rfl | ⟨hpending, hscanning⟩ := complete_status hrow
      · exact ⟨hs.clean, hs.current⟩
      · refine ⟨fun hclean => ?_, fun _ => hs.current (by rw [hpending]; rfl)⟩
        have hclean : row.scanStatus = .clean := hclean
        rw [hscanning] at hclean
        cases hclean

/-- `_finalize` records what the scan has of the object. -/
theorem scanInv_finalize {s : FileSystem} {k : ℕ} {state : ScanStatus} {digest : String} {scanned : Option Bytes}
    (hs : ScanInv sha256 s) (htask : .judged state digest scanned ∈ s.scans) :
    ScanInv sha256 (s.finalizeScan k state digest scanned) := by
  unfold FileSystem.finalizeScan
  split_ifs with hfinal
  · exact scanInv_set hs fun _ => trivial
  · rw [Bool.not_eq_true] at hfinal
    refine ⟨fun hclean => ?_, fun _ => forall_mem_set (hs.current hfinal) trivial⟩
    obtain ⟨o, hobject, rfl, rfl⟩ := hs.current hfinal _ htask hclean
    exact ⟨o, hobject, rfl, rfl⟩

theorem scanInv_step {s : FileSystem} {l : FileStep} (hs : ScanInv sha256 s) (hc : UploadsBefore s l) :
    ScanInv sha256 (s.step sha256 l) := by
  cases l with
  | upload now content => exact scanInv_upload hs hc
  | head configured visible => exact ⟨hs.clean, hs.current⟩
  | complete k visible =>
    unfold FileSystem.step
    dsimp only
    split
    · exact scanInv_complete hs
    · exact hs
  | startScan =>
    exact ⟨hs.clean, fun hfinal => forall_mem_concat (hs.current hfinal) (current_start s.row s.object)⟩
  | inspect k reachable =>
    unfold FileSystem.step
    dsimp only
    split
    · exact scanInv_set hs fun _ => current_inspect _ _ _ _
    · exact hs
  | scan k reply =>
    unfold FileSystem.step
    dsimp only
    split
    · next digest htask =>
      exact scanInv_set hs fun hfinal => current_scan reply (hs.current hfinal _ (List.mem_of_getElem? htask))
    · exact hs
  | finalize k =>
    unfold FileSystem.step
    dsimp only
    split
    · next htask => exact scanInv_finalize hs (List.mem_of_getElem? htask)
    · exact hs

end Sha256

theorem scanInv_requested (sha256 : Bytes → String) (tenantId : Uuid) (bucket objectKey declaredMime : String)
    (sizeBytes : ℕ) (configured : Bool) (now : ℤ) :
    ScanInv sha256 (.requested tenantId bucket objectKey declaredMime sizeBytes configured now) :=
  ⟨fun h => (by cases h), fun _ _ h => (List.not_mem_nil h).elim⟩

/-- **In every state of a run whose uploads come before, what `download_url` serves is what was scanned.** -/
theorem scanned_bytes_served (sha256 : Bytes → String) (tenantId : Uuid) (bucket objectKey declaredMime : String)
    (sizeBytes : ℕ) (configured : Bool) (now : ℤ) (steps : List FileStep)
    (h : Meets (FileSystem.step sha256) UploadsBefore
      (.requested tenantId bucket objectKey declaredMime sizeBytes configured now) steps) :
    Always (FileSystem.step sha256) (ServesScanned sha256)
      (.requested tenantId bucket objectKey declaredMime sizeBytes configured now) steps :=
  always_of_inv (ScanInv sha256) (fun _ => servesScanned_of_inv) (fun _ _ => scanInv_step) steps _
    (scanInv_requested sha256 tenantId bucket objectKey declaredMime sizeBytes configured now) h

instance (s : FileSystem) (l : FileStep) : Decidable (UploadsBefore s l) :=
  match l with
  | .upload now content =>
    decidable_of_iff (∀ object ∈ s.accept now content, s.object ≠ some object →
        s.row.scanStatus ≠ .clean ∧ (s.row.scanStatus.final = false → ∀ task ∈ s.scans, task.mayFindClean = false))
      Iff.rfl
  | .head _ _ => .isTrue trivial
  | .complete _ _ => .isTrue trivial
  | .startScan => .isTrue trivial
  | .inspect _ _ => .isTrue trivial
  | .scan _ _ => .isTrue trivial
  | .finalize _ => .isTrue trivial

/-- A file of eight bytes, requested at time 0. -/
def samplePdf : FileSystem :=
  .requested (sampleUuid '1') "uploads" "tenants/1/uploads/2.pdf" "application/pdf" 8 true 0

/-- The digests of two such files. -/
def sampleSha256 (content : Bytes) : String :=
  if content = ascii "%PDF-1.7" then "86edbaa24831badfa0a8b04bb410141e2ee4182b6d0014493fe262a7a331c20b"
  else "e16fa5d9b51928755db85b917f0297babaf22c7a47e97d9212adab56e61ba04e"

/-- The upload of a file and its scan. -/
def cleanSteps : List FileStep :=
  [.upload 1 (ascii "%PDF-1.7"), .head true true, .complete 0 true, .startScan, .inspect 0 true,
    .scan 0 (.answer "stream: OK"), .finalize 0]

/-- After a scan the file is served. -/
theorem scanned_bytes_served_cleanSteps :
    (after (FileSystem.step sampleSha256) samplePdf cleanSteps).row.scanStatus = .clean ∧
      Always (FileSystem.step sampleSha256) (ServesScanned sampleSha256) samplePdf cleanSteps :=
  ⟨by decide +kernel, scanned_bytes_served sampleSha256 (sampleUuid '1') "uploads" "tenants/1/uploads/2.pdf"
    "application/pdf" 8 true 0 cleanSteps (by decide +kernel)⟩

/-- The object is replaced after its scan: what is served was not scanned.  It is replaced between the inspection and
the scanner: the digest is of the other content. -/
theorem unscanned_served :
    ¬Always (FileSystem.step sampleSha256) (ServesScanned sampleSha256) samplePdf
        (cleanSteps ++ [.upload 2 (ascii "%PDF-1.4")]) ∧
      ¬Always (FileSystem.step sampleSha256) (ServesScanned sampleSha256) samplePdf
        [.upload 1 (ascii "%PDF-1.7"), .head true true, .complete 0 true, .startScan, .inspect 0 true,
          .upload 2 (ascii "%PDF-1.4"), .scan 0 (.answer "stream: OK"), .finalize 0] := by
  refine ⟨?_, ?_⟩
  · intro h
    obtain ⟨object, hobject, hscanned, -⟩ := always_last h true (sampleUuid '1')
      ⟨"uploads", "tenants/1/uploads/2.pdf", downloadTtlSeconds⟩ (by decide +kernel)
    have heq : some object.content ≠ some (ascii "%PDF-1.7") := by
      rw [← Option.some.inj hobject]
      decide +kernel
    exact heq (hscanned.symm.trans (by decide +kernel))
  · intro h
    obtain ⟨object, hobject, -, hsha⟩ := always_last h true (sampleUuid '1')
      ⟨"uploads", "tenants/1/uploads/2.pdf", downloadTtlSeconds⟩ (by decide +kernel)
    have heq : sampleSha256 object.content ≠ sampleSha256 (ascii "%PDF-1.7") := by
      rw [← Option.some.inj hobject]
      decide +kernel
    exact heq (Option.some.inj (hsha.symm.trans (by decide +kernel)))

end RevenueOS.Documents
