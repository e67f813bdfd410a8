import JobArranger.L6Agent.Telegram

/-!
# Copying files between agents

The child of `jarun_icon_fcopy` stands between two agents: the destination
says that it is ready, the source's stream is relayed to it, and its second
answer is the verdict. Both answers are received into one object, which says
SUCCEED from the first on. An orderly close instead of the verdict is read
as empty data, and `ja_tcp_recv_to` returns SUCCEED for it.

* `relay`: the copy loop, over what the two connections do.
* `putfile_checked`: `ja_fcopy_putfile` ends with SUCCEED only after the
  files were extracted and have the checksums of the source.
* `copy_verified_iff`: `ja_flow` is called without such a verdict exactly
  when the destination's last word is mistaken for one.
-/
namespace JobArranger.Agent

/-! ## The relay -/

/-- A `ZBX_TCP_READ` from the source: an error, or bytes (none at its end)
with the results of the `ZBX_TCP_WRITE`s they lead to; a failed write is
`none`. -/
inductive Read where
  | error
  | bytes (data : Text) (writes : List (Option Nat))

/-- Where the copy loop is after these events. -/
inductive Relay where
  | closed | error | waiting
  deriving DecidableEq, Repr

/-- The inner loop, with `left` bytes still to be written. -/
def writeAll : Nat → List (Option Nat) → Relay
  | 0, _ => .closed
  | _ + 1, [] => .waiting
  | _ + 1, none :: _ => .error
  | left + 1, some written :: rest => writeAll (left + 1 - written) rest

/-- mirrors src/jobarg_server/jarun/jaruniconfcopy.c:220-248 -/
def relay : List Read → Relay
  | [] => .waiting
  | .error :: _ => .error
  | .bytes [] _ :: _ => .closed
  | .bytes (b :: data) writes :: rest =>
    match writeAll (b :: data).length writes with
    | .closed => relay rest
    | r => r

/-! ## The child -/

/-- What the hosts and the connections do. -/
structure CopyWorld where
  connectTo : Bool
  sendTo : Bool
  ready : Reception × Reception
  connectFrom : Bool
  sendFrom : Bool
  reads : List Read
  final : Reception × Reception

/-- How the child ends: `ja_flow(inner_job_id, JA_FLOW_TYPE_NORMAL, 1)`,
`ja_set_runerr(inner_job_id, 2)`, or still at work. -/
inductive CopyEnd where
  | flow | runerr | waiting
  deriving DecidableEq, Repr

section
variable (c : Conversions) (parse : Text → Option Json) (strerror : Text)

/-- mirrors src/jobarg_server/jarun/jaruniconfcopy.c:162-276 -/
def jarunIconFcopyChild (w : CopyWorld) : CopyEnd :=
  if w.connectTo = false then .runerr
  else if w.sendTo = false then .runerr
  else match jaTcpRecvTo c none parse strerror w.ready.1 w.ready.2 jaJobObjectInit with
    | (_, .fail) => .runerr
    | (jobRes, .succeed) =>
      if jobRes.result ≠ responseSucceed then .runerr
      else if w.connectFrom = false then .runerr
      else if w.sendFrom = false then .runerr
      else match relay w.reads with
        | .error => .runerr
        | .waiting => .waiting
        | .closed =>
          -- the second answer goes into the object of the first
          match jaTcpRecvTo c none parse strerror w.final.1 w.final.2 jobRes with
          | (_, .fail) => .runerr
          | (jobRes, .succeed) => if jobRes.result ≠ responseSucceed then .runerr else .flow

/-! ## The destination -/

/-- `zbx_stat` -/
inductive FileStat where
  | missing (errno : Text)
  | directory
  | other

/-- What the destination finds; `extract` is the error of `ja_tar_extract`,
if there is one. -/
structure PutWorld where
  stat : Text → FileStat
  sendReady : Bool
  flag : Option UInt8
  extract : Text → Int → Option Text
  data : Reception
  /-- `ja_checksum` -/
  checksum : Text → Option Text

/-- `zbx_dsprintf("%s%c%s", dir, JA_DLM, key)` -/
def fullname (dir : Text) (key : String) : Text := dir ++ ascii "/" ++ ascii key

/-- The loop over the listed files: its first error. -/
def chksumLoop (checksum : Text → Option Text) (dir : Text) : List (String × Json) → Option Text
  | [] => none
  | (key, val) :: rest =>
    match checksum (fullname dir key) with
    | none => some (ascii "can not get check sum. " ++ fullname dir key)
    | some new =>
      if c.text val ≠ new then
        some (ascii "File " ++ ascii key ++ ascii " checksum " ++ c.text val ++ ascii " can not match " ++ new)
      else chksumLoop checksum dir rest

/-- mirrors src/jobarg_agent/jafcopy.c:515-577 -/
def jaFcopyPutfileChksum (checksum : Text → Option Text) (chksum dir : Text) (job : JobTelegram) : JobTelegram × Ret :=
  match parse chksum with
  | none => ({ job with message := ascii "Can not parse check sum data [" ++ chksum ++ ascii "]" }, .fail)
  | some (.object fields) =>
    match chksumLoop c checksum dir fields with
    | some message => ({ job with message }, .fail)
    | none => (job, .succeed)
  | some _ => ({ job with message := ascii "chksum is not json object" }, .fail)

/-- From the flag byte on.
mirrors src/jobarg_agent/jafcopy.c:446-484 -/
def putfileReceive (w : PutWorld) (todir : Text) (overwrite : Int) (job : JobTelegram) : JobTelegram × Ret :=
  match w.flag with
  | none => (job, .fail)
  | some flag =>
    -- `JA_FCOPY_FLAG_SUCCEED`
    if flag = 48 then
      match w.extract todir overwrite with
      | some message => ({ job with message }, .fail)
      | none =>
        match w.data with
        | none => (job, .fail)
        | some data => jaFcopyPutfileChksum c parse w.checksum (cString data) todir job
    else
      match w.data with
      | none => (job, .fail)
      | some data => ({ job with message := cString data }, .fail)

/-- Up to the common label.
mirrors src/jobarg_agent/jafcopy.c:404-484 -/
def putfileBody (w : PutWorld) (job : JobTelegram) : JobTelegram × Ret :=
  match parse job.argument with
  | none => ({ job with message := ascii "Can not parse job argument [" ++ job.argument ++ ascii "]" }, .fail)
  | some arg =>
    if isObject arg = false then
      ({ job with message := ascii "The job argument is not an object [" ++ job.argument ++ ascii "]" }, .fail)
    else match arg.objectGet "todir" with
      | none =>
        ({ job with
           message := ascii "Can not get from_directory from job argument [" ++ job.argument ++ ascii "]" }, .fail)
      | some todir =>
        match arg.objectGet "overwrite" with
        | none =>
          ({ job with message := ascii "Can not get overwrite from job argument [" ++ job.argument ++ ascii "]" }, .fail)
        | some overwrite =>
          match w.stat (c.text todir) with
          | .missing errno =>
            ({ job with message := ascii "Can not stat: " ++ c.text todir ++ ascii " (" ++ errno ++ ascii ")" }, .fail)
          | .other => ({ job with message := c.text todir ++ ascii " is not a directory." }, .fail)
          | .directory =>
            -- the first answer
            let job := { job with result := responseSucceed }
            if w.sendReady = false then (job, .fail)
            else putfileReceive c parse w (c.text todir) (c.int overwrite) job

/-- The object of the second answer.
mirrors src/jobarg_agent/jafcopy.c:390-500 -/
def jaFcopyPutfile (w : PutWorld) (job : JobTelegram) : JobTelegram × Ret :=
  match putfileBody c parse w job with
  | (job, .fail) => ({ job with result := responseFail }, .fail)
  | (job, .succeed) => ({ job with result := responseSucceed }, .succeed)

/-! ## What the destination has checked -/

/-- Every file of the list has the checksum of the list. -/
def SumsMatch (checksum : Text → Option Text) (dir : Text) (fields : List (String × Json)) : Prop :=
  ∀ e ∈ fields, checksum (fullname dir e.1) = some (c.text e.2)

/-- The stream was announced and extracted, and the files match the list of
checksums that came after it. -/
def FilesChecked (w : PutWorld) : Prop :=
  ∃ todir overwrite data fields, w.flag = some 48 ∧ w.extract todir overwrite = none ∧ w.data = some data ∧
    parse (cString data) = some (.object fields) ∧ SumsMatch c w.checksum todir fields

variable {c parse strerror}

theorem chksumLoop_none {checksum : Text → Option Text} {dir : Text} {fields : List (String × Json)}
    (h : chksumLoop c checksum dir fields = none) : SumsMatch c checksum dir fields := by
  induction fields with
  | nil => exact fun e he => absurd he List.not_mem_nil
  | cons f fields ih =>
    obtain ⟨key, val⟩ := f
    rw [chksumLoop] at h
    cases hsum : checksum (fullname dir key) with
    | none => simp [hsum] at h
    | some new =>
      simp only [hsum] at h
      split at h
      · cases h
      · rename_i heq
        intro e he
        rcases List.mem_cons.1 he with rfl | he
        · rw [hsum, not_not.1 heq]
        · exact ih h e he

theorem chksum_succeed {checksum : Text → Option Text} {chksum dir : Text} {job : JobTelegram}
    (h : (jaFcopyPutfileChksum c parse checksum chksum dir job).2 = .succeed) :
    ∃ fields, parse chksum = some (.object fields) ∧ SumsMatch c checksum dir fields := by
  unfold jaFcopyPutfileChksum at h
  split at h
  · cases h
  · rename_i fields hp
    split at h
    · cases h
    · rename_i hloop
      exact ⟨fields, hp, chksumLoop_none hloop⟩
  · cases h

theorem putfileReceive_succeed {w : PutWorld} {todir : Text} {overwrite : Int} {job : JobTelegram}
    (h : (putfileReceive c parse w todir overwrite job).2 = .succeed) : FilesChecked c parse w := by
  unfold putfileReceive at h
  split at h
  · cases h
  rename_i flag hflag
  split at h
  · rename_i hok
    split at h
    · cases h
    rename_i hextract
    split at h
    · cases h
    rename_i data hdata
    obtain ⟨fields, hp, hsums⟩ := chksum_succeed h
    exact ⟨todir, overwrite, data, fields, hok ▸ hflag, hextract, hdata, hp, hsums⟩
  · split at h <;> cases h

/-- The second answer is SUCCEED only when the files are checked. -/
theorem putfile_checked {w : PutWorld} {job : JobTelegram}
    (h : (jaFcopyPutfile c parse w job).1.result = responseSucceed) : FilesChecked c parse w := by
  have hbody : (putfileBody c parse w job).2 = .succeed := by
    unfold jaFcopyPutfile at h
    split at h
    · have hfail : responseFail = responseSucceed := h
      cases hfail
    · rename_i hb
      rw [hb]
  unfold putfileBody at hbody
  split at hbody
  · cases hbody
  split at hbody
  · cases hbody
  split at hbody
  · cases hbody
  split at hbody
  · cases hbody
  split at hbody
  · cases hbody
  · cases hbody
  · dsimp only at hbody
    split at hbody
    · cases hbody
    · exact putfileReceive_succeed hbody

/-! ## What the child has received -/

variable (c parse strerror) in
/-- The destination is ready, with this answer, and the source has got its
telegram. -/
structure TransferAccepted (w : CopyWorld) (jobRes : JobTelegram) : Prop where
  connectTo : w.connectTo = true
  sendTo : w.sendTo = true
  ready : jaTcpRecvTo c none parse strerror w.ready.1 w.ready.2 jaJobObjectInit = (jobRes, .succeed)
  result : jobRes.result = responseSucceed
  connectFrom : w.connectFrom = true
  sendFrom : w.sendFrom = true

/-- The only way to `ja_flow`. -/
theorem child_flow_iff {w : CopyWorld} :
    jarunIconFcopyChild c parse strerror w = .flow ↔
      ∃ jobRes, TransferAccepted c parse strerror w jobRes ∧ relay w.reads = .closed ∧
        SaysSucceed c parse strerror w.final.1 w.final.2 jobRes := by
  constructor
  · intro h
    unfold jarunIconFcopyChild at h
    split at h
    · cases h
    rename_i hct
    split at h
    · cases h
    rename_i hst
    split at h
    · cases h
    rename_i jobRes hready
    split at h
    · cases h
    rename_i hres
    split at h
    · cases h
    rename_i hcf
    split at h
    · cases h
    rename_i hsf
    split at h
    · cases h
    · cases h
    rename_i hrelay
    refine ⟨jobRes, ⟨by simpa using hct, by simpa using hst, hready, not_not.1 hres, by simpa using hcf,
      by simpa using hsf⟩, hrelay, ?_⟩
    split at h
    · cases h
    rename_i job' hfinal
    split at h
    · cases h
    rename_i hfin
    unfold SaysSucceed
    rw [hfinal]
    exact ⟨rfl, not_not.1 hfin⟩
  · intro h
    obtain ⟨jobRes, hacc, hrelay, hyes⟩ := h
    unfold SaysSucceed at hyes
    have hfinal : jaTcpRecvTo c none parse strerror w.final.1 w.final.2 jobRes =
        ((jaTcpRecvTo c none parse strerror w.final.1 w.final.2 jobRes).1, .succeed) := Prod.ext rfl hyes.1
    unfold jarunIconFcopyChild
    rw [hacc.connectTo, hacc.sendTo, hacc.ready, hacc.connectFrom, hacc.sendFrom, hrelay]
    simp only [Bool.true_eq_false, if_false, hacc.result, ne_eq, not_true_eq_false]
    rw [hfinal]
    simp [hyes.2]

variable (c parse strerror) in
/-- The child ends normally only with a verdict, and the destination's verdict
is SUCCEED only for checked files. -/
def CopyLaw (w : CopyWorld) (d : PutWorld) (job : JobTelegram) : Prop :=
  (jarunIconFcopyChild c parse strerror w = .flow → Verified c parse w.final.1 w.final.2) ∧
    ((jaFcopyPutfile c parse d job).1.result = responseSucceed → FilesChecked c parse d)

variable (c parse strerror) in
/-- After the stream, what comes from the destination is empty, or a request:
mistaken for its verdict. -/
def MistakenVerdict (w : CopyWorld) : Prop :=
  ∃ jobRes, TransferAccepted c parse strerror w jobRes ∧ relay w.reads = .closed ∧
    Mistaken c parse jobRes w.final.1 w.final.2

variable (c parse strerror) in
/-- **A copy ends normally only after the destination has verified the files**,
exactly when no verdict is mistaken. -/
theorem copy_verified_iff (w : CopyWorld) (d : PutWorld) (job : JobTelegram) :
    CopyLaw c parse strerror w d job ↔ ¬ MistakenVerdict c parse strerror w := by
  constructor
  · intro h hm
    obtain ⟨jobRes, hacc, hrelay, hmis⟩ := hm
    have hflow := child_flow_iff.2 ⟨jobRes, hacc, hrelay, hmis.saysSucceed hacc.result⟩
    exact hmis.not_verified (h.1 hflow)
  · intro h
    refine ⟨fun hflow => ?_, putfile_checked⟩
    obtain ⟨jobRes, hacc, hrelay, hyes⟩ := child_flow_iff.1 hflow
    rcases saysSucceed_cases hyes with hmis | hver
    · exact absurd ⟨jobRes, hacc, hrelay, hmis⟩ h
    · exact hver

end

/-! ## An orderly close -/

/-- The first answer of the destination. -/
def readyTelegram : Json :=
  .object [("kind", .string "fcopy-res"), ("version", .int 1), ("serverid", .string "server"),
    ("hostname", .string "host"), ("data", .object [("result", .int 0)])]

def readyText : Text :=
  ascii "\x7b\"kind\":\"fcopy-res\",\"version\":1,\"serverid\":\"server\"," ++
    ascii "\"hostname\":\"host\",\"data\":\x7b\"result\":0\x7d\x7d"

/-- `json_tokener_parse` on the answer. -/
def readyParse (t : Text) : Option Json := if t = readyText then some readyTelegram else none

/-- The source sends three bytes and closes, and so does the destination. -/
def closedCopy : CopyWorld :=
  ⟨true, true, (some readyText, none), true, true, [.bytes [48, 1, 2] [some 3], .bytes [] []], (some [], none)⟩

/-- The icon ends normally though the destination has said nothing after the
stream. -/
theorem copy_unverified :
    jarunIconFcopyChild plainJson readyParse [] closedCopy = .flow ∧
      ¬ Verified plainJson readyParse closedCopy.final.1 closedCopy.final.2 := by
  refine ⟨by decide +kernel, fun hv => ?_⟩
  obtain ⟨data, json, hr, hne, -⟩ := hv
  cases hr
  exact hne rfl

end JobArranger.Agent
