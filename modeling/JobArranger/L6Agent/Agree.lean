import JobArranger.L6Agent.JobDb

/-!
# Writing a telegram (`jalibs/jatelegram.c`)

`ja_telegram_to` builds the JSON object of a telegram from a job object and
prints it. The agent reads a request with `ja_telegram_from`, the server a
job result with `jatrap_jobresult_load`: three codes written separately, with
the tags by kind and by result.

`argument` and `env` are carried as JSON values. The receiver prints each
again into its buffer of 4096 bytes, with the blanks json-c puts between the
tokens; a text that fitted without them may not fit with them.

The parser and the printer are parameters: `parse` and `Conversions.text` on
objects, `string` for `json_object_new_string`.

* `jaTelegramFrom_request`: what the agent has read of a request.
* `jatrapJobresultLoad_result`: what the server has read of a result.
* `telegrams_agree`: when the two sides agree.
-/
namespace JobArranger.Agent.Wire

open JobDb (CText JobRecord)

/-- `ja_job_object`, with the two fields that have no column.
mirrors jainclude/jacommon.h:365-389 -/
structure JobObject extends JobRecord where
  kind : CText 15
  hostname : CText 127
  deriving DecidableEq

/-- `JA_JOBRESULT_*` (jacommon.h:300-301). -/
def jobresultSucceed : Int32 := 0

def jobresultFail : Int32 := 1

section
variable (c : Conversions) (parse : Text → Option Json) (string : Text → String)

/-- `json_tokener_parse` of the text, or of `{}` for an empty one. -/
def parseOrEmpty (s : Text) : Option Json := parse (if 0 < s.length then s else ascii "\x7b\x7d")

/-- mirrors src/jalibs/jatelegram.c:756-773 -/
def jaTelegramToHead (job : JobObject) : List (String × Json) :=
  [("kind", .string (string job.kind.bytes)),
   ("version", .int job.version.toInt),
   ("serverid", .string (string job.serverid.bytes)),
   ("hostname", .string (string job.hostname.bytes))]

/-- The data of a request. -/
def requestData (job : JobObject) (argument env : Json) : List (String × Json) :=
  [("jobid", .string (string (intText job.jobid.toNat))),
   ("type", .string (string job.type.bytes)),
   ("method", .int job.method.toInt),
   ("script", .string (string job.script.bytes)),
   ("argument", argument),
   ("env", env),
   ("run_user", .string (string job.runUser.bytes)),
   ("run_user_password", .string (string job.runUserPassword.bytes))]

/-- mirrors src/jalibs/jatelegram.c:788-842 -/
def jaTelegramToRequest (job : JobObject) : Option (List (String × Json)) :=
  (parseOrEmpty parse job.argument.bytes).bind fun argument =>
    (parseOrEmpty parse job.env.bytes).map fun env => requestData string job argument env

/-- mirrors src/jalibs/jatelegram.c:857-882 -/
def jaTelegramToResponse (job : JobObject) : List (String × Json) :=
  [("result", .int job.result.toInt)] ++
    (if job.result.toInt ≠ responseSucceed then [("message", .string (string job.message.bytes))] else []) ++
    (if job.result.toInt = responseVersionFail then [("myversion", .int teleVersion)] else [])

/-- mirrors src/jalibs/jatelegram.c:897-941 -/
def jaTelegramToJobresult (configHostname : Text) (job : JobObject) : List (String × Json) :=
  [("jobid", .string (string (intText job.jobid.toNat))),
   ("hostname", .string (string configHostname)),
   ("method", .int job.method.toInt),
   ("result", .int job.result.toInt)] ++
    if job.result = jobresultSucceed then
      [("std_out", .string (string job.stdOut.bytes)),
       ("std_err", .string (string job.stdErr.bytes)),
       ("return_code", .int job.returnCode.toInt),
       ("signal", .int job.signal.toInt),
       ("run_user", .string (string job.runUser.bytes)),
       ("run_user_password", .string (string job.runUserPassword.bytes))]
    else [("message", .string (string job.message.bytes))]

/-- The object of the telegram; `none` where `ja_telegram_to` is FAIL. -/
def telegramObject (configHostname : Text) (job : JobObject) : Option Json :=
  let data :=
    if job.kind.bytes = ascii "jobrun" ∨ job.kind.bytes = ascii "fcopy" then jaTelegramToRequest parse string job
    else if job.kind.bytes = ascii "jobresult" then some (jaTelegramToJobresult string configHostname job)
    else if job.kind.bytes = ascii "jobrun-res" ∨ job.kind.bytes = ascii "fcopy-res" then
      some (jaTelegramToResponse string job)
    else none
  data.map fun fields => .object (jaTelegramToHead string job ++ [("data", .object fields)])

/-- mirrors src/jalibs/jatelegram.c:703-741 -/
def jaTelegramTo (configHostname : Text) (job : JobObject) : Option Text :=
  (telegramObject parse string configHostname job).map c.text

/-! ## What the two sides rely on -/

/-- json-c gives back strings and integers. -/
structure Faithful : Prop where
  text : ∀ s : Text, 0 ∉ s → c.text (.string (string s)) = s
  int : ∀ x : Int32, c.int (.int x.toInt) = x.toInt

/-- The printed value is parsed back, and no part of it is. -/
structure PrintsBack (v : Json) : Prop where
  whole : parse (c.text v) = some v
  part : ∀ k < (c.text v).length, parse ((c.text v).take k) ≠ some v

/-- The fields of a request that reach the agent. -/
structure SameJob (job : JobObject) (job' : JobTelegram) : Prop where
  jobid : job'.jobid = job.jobid.toNat
  method : job'.method = job.method.toInt
  type : job'.type = job.type.bytes
  script : job'.script = job.script.bytes
  runUser : job'.runUser = job.runUser.bytes
  runUserPassword : job'.runUserPassword = job.runUserPassword.bytes
  argument : parse job'.argument = parseOrEmpty parse job.argument.bytes
  env : parse job'.env = parseOrEmpty parse job.env.bytes

/-- The agent reads the request, into whatever object, as it was written. -/
def RequestAgrees (configHostname : Text) (job : JobObject) (old : JobTelegram) : Prop :=
  ∃ telegram job', jaTelegramTo c parse string configHostname job = some telegram ∧
    jaTelegramFrom c (some configHostname) parse telegram old = (job', .succeed) ∧ SameJob parse job job'

/-- The fields of a result that reach the server. -/
structure SameResult (job : JobObject) (r : JobResult) : Prop where
  jobid : r.jobid = job.jobid.toNat
  result : r.result = job.result.toInt
  succeeded : job.result = jobresultSucceed →
    r.stdOut = some job.stdOut.bytes ∧ r.stdErr = some job.stdErr.bytes ∧
      r.returnCode = job.returnCode.toInt ∧ r.signal = job.signal.toInt
  failed : job.result = jobresultFail → r.message = some job.message.bytes

/-- The server reads the result as it was written. -/
def ResultAgrees (configHostname : Text) (job : JobObject) (stack : Int) : Prop :=
  ∃ telegram request r, jaTelegramTo c parse string configHostname job = some telegram ∧
    parse telegram = some request ∧ jatrapJobresultLoad c stack request = some r ∧ SameResult job r

variable {c parse string} {configHostname : Text} {job : JobObject}

/-! ## The head -/

theorem cut_bytes {n size : Nat} (s : CText n) (h : size = n + 1) : cut size s.bytes = s.bytes := by
  subst h
  exact List.take_of_length_le s.fits

/-- The agent with the job's host name accepts the head. -/
theorem jaTelegramFromHead_written (hf : Faithful c string) (hver : job.version.toInt = teleVersion)
    (hhost : job.hostname.bytes = configHostname) (fields : List (String × Json)) (old : JobTelegram) :
    jaTelegramFromHead c (some configHostname)
        (.object (jaTelegramToHead string job ++ [("data", .object fields)])) old =
      ({ old with kind := job.kind.bytes, version := teleVersion, serverid := job.serverid.bytes
                  hostname := configHostname }, .succeed) := by
  have hkind : (Json.object (jaTelegramToHead string job ++ [("data", .object fields)])).objectGet "kind" =
      some (.string (string job.kind.bytes)) := rfl
  have hversion : (Json.object (jaTelegramToHead string job ++ [("data", .object fields)])).objectGet "version" =
      some (.int job.version.toInt) := rfl
  have hserverid : (Json.object (jaTelegramToHead string job ++ [("data", .object fields)])).objectGet "serverid" =
      some (.string (string job.serverid.bytes)) := rfl
  have hhostname : (Json.object (jaTelegramToHead string job ++ [("data", .object fields)])).objectGet "hostname" =
      some (.string (string job.hostname.bytes)) := rfl
  have hdata : (Json.object (jaTelegramToHead string job ++ [("data", .object fields)])).objectGet "data" =
      some (.object fields) := rfl
  have hobj : isObject (.object (jaTelegramToHead string job ++ [("data", .object fields)])) = true := rfl
  have hinner : isObject (.object fields) = true := rfl
  have hone : c.int (.int job.version.toInt) = teleVersion := by rw [hf.int, hver]
  have hserver : cut 18 (c.text (.string (string job.serverid.bytes))) = job.serverid.bytes := by
    rw [hf.text _ job.serverid.noNul, cut_bytes job.serverid rfl]
  have hname : cut 128 (c.text (.string (string job.hostname.bytes))) = configHostname := by
    rw [hf.text _ job.hostname.noNul, cut_bytes job.hostname rfl, hhost]
  simp only [jaTelegramFromHead, hobj, hkind, hversion, hserverid, hhostname, hdata, hinner, textField,
    hf.text _ job.kind.noNul, hone, hserver, hname, Option.map_some, Option.getD_some, Option.any_some,
    bne_self_eq_false, Bool.true_eq_false, Bool.false_eq_true, ne_eq, not_true_eq_false, if_false]

/-! ## Requests -/

theorem zero_not_mem_intText (n : Nat) : 0 ∉ intText n := by
  rw [JobDb.intText_natCast]
  intro h
  have hdigit := Sql.isDigit_of_mem_digits h
  cases hdigit

/-- What the agent has read of a request. -/
def received (c : Conversions) (configHostname : Text) (job : JobObject) (argument env : Json)
    (old : JobTelegram) : JobTelegram :=
  { old with
    kind := job.kind.bytes
    version := teleVersion
    serverid := job.serverid.bytes
    hostname := configHostname
    jobid := job.jobid.toNat
    method := job.method.toInt
    type := job.type.bytes
    argument := cut 4096 (c.text argument)
    script := job.script.bytes
    env := cut 4096 (c.text env)
    runUser := job.runUser.bytes
    runUserPassword := job.runUserPassword.bytes }

/-- A request of the server: the fields of its job object as the caller
promises them. -/
structure Request (parse : Text → Option Json) (configHostname : Text) (job : JobObject) (argument env : Json) :
    Prop where
  kind : job.kind.bytes = ascii "jobrun" ∨ job.kind.bytes = ascii "fcopy"
  version : job.version.toInt = teleVersion
  hostname : job.hostname.bytes = configHostname
  jobid : 0 < job.jobid
  argumentText : parseOrEmpty parse job.argument.bytes = some argument
  argumentObject : isObject argument = true
  envText : parseOrEmpty parse job.env.bytes = some env
  envObject : isObject env = true

theorem pointer_of_isObject {v : Json} (h : isObject v = true) : v.pointer = some v := by
  cases v with
  | object fields => rfl
  | _ => cases h

theorem telegramObject_request {argument env : Json} (hreq : Request parse configHostname job argument env) :
    telegramObject parse string configHostname job =
      some (.object (jaTelegramToHead string job ++ [("data", .object (requestData string job argument env))])) := by
  simp only [telegramObject, if_pos hreq.kind, jaTelegramToRequest, hreq.argumentText, hreq.envText,
    Option.bind_some, Option.map_some]

/-- The agent reads a request to its end. -/
theorem jaTelegramFromRequest_written {argument env : Json} (hf : Faithful c string)
    (hreq : Request parse configHostname job argument env) (old : JobTelegram) :
    jaTelegramFromRequest c
        (.object (jaTelegramToHead string job ++ [("data", .object (requestData string job argument env))]))
        { old with kind := job.kind.bytes, version := teleVersion, serverid := job.serverid.bytes
                   hostname := configHostname } =
      (received c configHostname job argument env old, .succeed) := by
  have hdata : (Json.object (jaTelegramToHead string job ++
      [("data", .object (requestData string job argument env))])).objectGet "data" =
      some (.object (requestData string job argument env)) := rfl
  have hjobid : (Json.object (requestData string job argument env)).objectGet "jobid" =
      some (.string (string (intText job.jobid.toNat))) := rfl
  have hmethod : (Json.object (requestData string job argument env)).objectGet "method" =
      some (.int job.method.toInt) := rfl
  have henv : (Json.object (requestData string job argument env)).objectGet "env" = some env :=
    pointer_of_isObject hreq.envObject
  have hargument : (Json.object (requestData string job argument env)).objectGet "argument" = some argument :=
    pointer_of_isObject hreq.argumentObject
  -- a string field is read as it was written
  have hfield : ∀ {tag : String} {size n : Nat} (s : CText n) (old : Text), size = n + 1 →
      (Json.object (requestData string job argument env)).objectGet tag = some (.string (string s.bytes)) →
      textField c (.object (requestData string job argument env)) tag size old = s.bytes := by
    intro tag size n s old hsize hget
    rw [textField, hget, Option.map_some, Option.getD_some, hf.text _ s.noNul, cut_bytes s hsize]
  have hid : str2uint64 (c.text (.string (string (intText job.jobid.toNat)))) = some job.jobid.toNat := by
    rw [hf.text _ (zero_not_mem_intText _), JobDb.str2uint64_intText]
  have hpos : ¬ job.jobid.toNat = 0 := by
    have hlt := hreq.jobid
    rw [UInt64.lt_iff_toNat_lt] at hlt
    exact Nat.pos_iff_ne_zero.1 hlt
  simp only [jaTelegramFromRequest, hdata, hjobid, hid, Option.getD_some, if_neg hpos, hmethod, henv,
    hreq.envObject, Bool.true_eq_false, if_false, requestFields]
  rw [hfield job.type old.type rfl rfl, hfield job.script old.script rfl rfl,
    hfield job.runUser old.runUser rfl rfl, hfield job.runUserPassword old.runUserPassword rfl rfl]
  simp only [textField, hargument, Option.map_some, Option.getD_some, hf.int, received]
  rfl

/-- What the agent has read of a request. -/
theorem jaTelegramFrom_request {argument env : Json} (hf : Faithful c string)
    (hreq : Request parse configHostname job argument env)
    (hback : ∀ v ∈ telegramObject parse string configHostname job, parse (c.text v) = some v)
    (old : JobTelegram) : ∃ telegram, jaTelegramTo c parse string configHostname job = some telegram ∧
      jaTelegramFrom c (some configHostname) parse telegram old =
        (received c configHostname job argument env old, .succeed) := by
  have hobj : telegramObject parse string configHostname job =
      some (.object (jaTelegramToHead string job ++ [("data", .object (requestData string job argument env))])) :=
    telegramObject_request hreq
  have hkind : requestKind job.kind.bytes = true := by
    rcases hreq.kind with h | h <;> simp [requestKind, h]
  refine ⟨_, by rw [jaTelegramTo, hobj, Option.map_some], ?_⟩
  simp only [jaTelegramFrom, hback _ hobj, jaTelegramFromHead_written hf hreq.version hreq.hostname, if_pos hkind]
  exact jaTelegramFromRequest_written hf hreq old

theorem parse_cut {v : Json} (h : PrintsBack c parse v) :
    parse (cut 4096 (c.text v)) = some v ↔ (c.text v).length ≤ 4095 := by
  constructor
  · intro hcut
    by_contra hlong
    exact h.part 4095 (by omega) hcut
  · intro hfits
    rw [cut, List.take_of_length_le hfits, h.whole]

/-- A request reaches the agent unless it is printed too long. -/
theorem requestAgrees_iff {argument env : Json} (hf : Faithful c string)
    (hreq : Request parse configHostname job argument env)
    (hback : ∀ v ∈ telegramObject parse string configHostname job, parse (c.text v) = some v)
    (hargument : PrintsBack c parse argument) (henv : PrintsBack c parse env) (old : JobTelegram) :
    RequestAgrees c parse string configHostname job old ↔
      (c.text argument).length ≤ 4095 ∧ (c.text env).length ≤ 4095 := by
  obtain ⟨telegram, hto, hfrom⟩ := jaTelegramFrom_request hf hreq hback old
  constructor
  · intro h
    obtain ⟨telegram', job', hto', hfrom', hsame⟩ := h
    obtain rfl : telegram = telegram' := Option.some.inj (hto.symm.trans hto')
    rw [hfrom] at hfrom'
    obtain rfl : received c configHostname job argument env old = job' := congrArg Prod.fst hfrom'
    exact ⟨(parse_cut hargument).1 (hsame.argument.trans hreq.argumentText),
      (parse_cut henv).1 (hsame.env.trans hreq.envText)⟩
  · intro h
    refine ⟨telegram, _, hto, hfrom, ⟨rfl, rfl, rfl, rfl, rfl, rfl, ?_, ?_⟩⟩
    · exact ((parse_cut hargument).2 h.1).trans hreq.argumentText.symm
    · exact ((parse_cut henv).2 h.2).trans hreq.envText.symm

/-! ## Results -/

theorem scanUInt64_intText (n : UInt64) : scanUInt64 (intText n.toNat) = some n.toNat := by
  have hlt : n.toNat < 2 ^ 64 := n.toNat_lt
  obtain ⟨b, ds, hds, hspace, hminus, hplus⟩ := JobDb.digits_head n.toNat
  have hdrop : (Sql.digits n.toNat).dropWhile isSpace = Sql.digits n.toNat := by
    rw [hds, List.dropWhile_cons_of_neg (by simp [hspace])]
  have hneg : ((Sql.digits n.toNat).head? == some 45) = false := by simp [hds, hminus]
  have hsign : ((Sql.digits n.toNat).head? == some 43) = false := by simp [hds, hplus]
  have hdigit : ∀ d ∈ Sql.digits n.toNat, isDigit d = true := fun d hd => Sql.isDigit_of_mem_digits hd
  have hall : (Sql.digits n.toNat).takeWhile isDigit = b :: ds := by
    rw [List.takeWhile_eq_self_iff.2 hdigit, hds]
  have hval : (b :: ds).foldl (fun n d => 10 * n + (d.toNat - 48)) 0 = n.toNat := by
    rw [← hds]
    exact Sql.natVal_digits _
  rw [JobDb.intText_natCast, scanUInt64]
  simp only [hdrop, hneg, hsign, Bool.or_self, Bool.false_eq_true, if_false, hall, hval]
  rw [if_neg (by omega)]

/-- A job result of the agent. -/
structure Result (job : JobObject) : Prop where
  kind : job.kind.bytes = ascii "jobresult"
  result : job.result = jobresultSucceed ∨ job.result = jobresultFail

theorem telegramObject_result (hres : Result job) :
    telegramObject parse string configHostname job =
      some (.object (jaTelegramToHead string job ++
        [("data", .object (jaTelegramToJobresult string configHostname job))])) := by
  have hother : ¬ (job.kind.bytes = ascii "jobrun" ∨ job.kind.bytes = ascii "fcopy") := by
    rw [hres.kind]
    decide
  simp only [telegramObject, if_neg hother, if_pos hres.kind, Option.map_some]

/-- What the server has read of a result. -/
theorem jatrapJobresultLoad_result (hf : Faithful c string) (hres : Result job)
    (stack : Int) : ∃ r,
      jatrapJobresultLoad c stack (.object (jaTelegramToHead string job ++
        [("data", .object (jaTelegramToJobresult string configHostname job))])) = some r ∧ SameResult job r := by
  have hdata : (Json.object (jaTelegramToHead string job ++
      [("data", .object (jaTelegramToJobresult string configHostname job))])).objectGet "data" =
      some (.object (jaTelegramToJobresult string configHostname job)) := rfl
  have hjobid : (Json.object (jaTelegramToJobresult string configHostname job)).objectGet "jobid" =
      some (.string (string (intText job.jobid.toNat))) := rfl
  have hhostname : (Json.object (jaTelegramToJobresult string configHostname job)).objectGet "hostname" =
      some (.string (string configHostname)) := rfl
  have hresult : (Json.object (jaTelegramToJobresult string configHostname job)).objectGet "result" =
      some (.int job.result.toInt) := rfl
  have hid : (scanUInt64 (c.text (.string (string (intText job.jobid.toNat))))).getD 0 = job.jobid.toNat := by
    rw [hf.text _ (zero_not_mem_intText _), scanUInt64_intText, Option.getD_some]
  rcases hres.result with hr | hr
  · have hok : ¬ job.result.toInt = 1 := by
      rw [hr]
      decide
    have hfields : jaTelegramToJobresult string configHostname job =
        [("jobid", .string (string (intText job.jobid.toNat))), ("hostname", .string (string configHostname)),
         ("method", .int job.method.toInt), ("result", .int job.result.toInt),
         ("std_out", .string (string job.stdOut.bytes)), ("std_err", .string (string job.stdErr.bytes)),
         ("return_code", .int job.returnCode.toInt), ("signal", .int job.signal.toInt),
         ("run_user", .string (string job.runUser.bytes)),
         ("run_user_password", .string (string job.runUserPassword.bytes))] := by
      rw [jaTelegramToJobresult, if_pos hr]
      rfl
    have hstdOut : (Json.object (jaTelegramToJobresult string configHostname job)).objectGet "std_out" =
        some (.string (string job.stdOut.bytes)) := by rw [hfields]; rfl
    have hstdErr : (Json.object (jaTelegramToJobresult string configHostname job)).objectGet "std_err" =
        some (.string (string job.stdErr.bytes)) := by rw [hfields]; rfl
    have hcode : (Json.object (jaTelegramToJobresult string configHostname job)).objectGet "return_code" =
        some (.int job.returnCode.toInt) := by rw [hfields]; rfl
    have hsignal : (Json.object (jaTelegramToJobresult string configHostname job)).objectGet "signal" =
        some (.int job.signal.toInt) := by rw [hfields]; rfl
    refine ⟨{ jobid := job.jobid.toNat, result := job.result.toInt
              hostname := c.text (.string (string configHostname)), message := none
              stdOut := some job.stdOut.bytes, stdErr := some job.stdErr.bytes
              returnCode := job.returnCode.toInt, signal := job.signal.toInt }, ?_, ?_⟩
    · simp only [jatrapJobresultLoad, hdata, hjobid, hhostname, hresult, Option.bind_eq_bind, Option.bind_some,
        if_neg hok, hstdOut, hstdErr, hcode, hsignal, hid, hf.int, hf.text _ job.stdOut.noNul,
        hf.text _ job.stdErr.noNul]
    · exact ⟨rfl, rfl, fun _ => ⟨rfl, rfl, rfl, rfl⟩, fun hfail => absurd (hr.symm.trans hfail) (by decide)⟩
  · have hfailed : job.result.toInt = 1 := by
      rw [hr]
      rfl
    have hmessage : (Json.object (jaTelegramToJobresult string configHostname job)).objectGet "message" =
        some (.string (string job.message.bytes)) := by
      rw [jaTelegramToJobresult, if_neg (by rw [hr]; decide)]
      rfl
    refine ⟨{ jobid := job.jobid.toNat, result := job.result.toInt
              hostname := c.text (.string (string configHostname)), message := some job.message.bytes
              stdOut := none, stdErr := none, returnCode := -1, signal := stack }, ?_, ?_⟩
    · simp only [jatrapJobresultLoad, hdata, hjobid, hhostname, hresult, Option.bind_eq_bind, Option.bind_some,
        if_pos hfailed, hmessage, hid, hf.int, hf.text _ job.message.noNul]
    · exact ⟨rfl, rfl, fun hok => absurd (hr.symm.trans hok) (by decide), fun _ => rfl⟩

/-- **A job result reaches the server** as the agent wrote it. -/
theorem resultAgrees (hf : Faithful c string) (hres : Result job)
    (hback : ∀ v ∈ telegramObject parse string configHostname job, parse (c.text v) = some v) (stack : Int) :
    ResultAgrees c parse string configHostname job stack := by
  have hobj : telegramObject parse string configHostname job = some (.object (jaTelegramToHead string job ++
      [("data", .object (jaTelegramToJobresult string configHostname job))])) := telegramObject_result hres
  obtain ⟨r, hload, hsame⟩ := jatrapJobresultLoad_result hf hres stack
  exact ⟨_, _, r, by rw [jaTelegramTo, hobj, Option.map_some], hback _ hobj, hload, hsame⟩

variable (c parse string configHostname)

/-- **When the two sides agree.** A request reaches the agent exactly if its
argument and environment, printed by json-c, fit the receiver's buffers;
a job result always reaches the server. -/
theorem telegrams_agree (hf : Faithful c string) :
    (∀ job argument env old, Request parse configHostname job argument env →
      (∀ v ∈ telegramObject parse string configHostname job, parse (c.text v) = some v) →
      PrintsBack c parse argument → PrintsBack c parse env →
      (RequestAgrees c parse string configHostname job old ↔
        (c.text argument).length ≤ 4095 ∧ (c.text env).length ≤ 4095)) ∧
    (∀ job stack, Result job →
      (∀ v ∈ telegramObject parse string configHostname job, parse (c.text v) = some v) →
      ResultAgrees c parse string configHostname job stack) :=
  ⟨fun _ _ _ old hreq hback hargument henv => requestAgrees_iff hf hreq hback hargument henv old,
    fun _ stack hres hback => resultAgrees hf hres hback stack⟩

end

/-! ## One long argument -/

/-- Bytes as characters. -/
def latin (s : Text) : String := String.ofList (s.map fun b => Char.ofNat b.toNat)

theorem ascii_latin (s : Text) : ascii (latin s) = s := by
  rw [ascii, latin, String.toList_ofList, List.map_map]
  refine (List.map_congr_left fun b _ => ?_).trans (List.map_id s)
  have hb : b.toNat < 256 := b.toNat_lt
  have hvalid : b.toNat.isValidChar := .inl (by omega)
  have hchar : (Char.ofNat b.toNat).toNat = b.toNat := by
    rw [Char.ofNat, dif_pos hvalid]
    rfl
  show UInt8.ofNat (Char.ofNat b.toNat).toNat = b
  rw [hchar, UInt8.ofNat_toNat]

/-- Objects as json-c prints them, where no string needs an escape. -/
def printAt : Nat → Json → Text
  | _ + 1, .string s => 34 :: (ascii s ++ [34])
  | _ + 1, .int i => intText i
  | d + 1, .object fields =>
    123 :: ([44].intercalate (fields.map fun f => ascii " \"" ++ ascii f.1 ++ ascii "\": " ++ printAt d f.2) ++
      ascii " \x7d")
  | _, _ => []

def jsonText : Json → Text
  | .string s => ascii s
  | v => printAt 3 v

def jsonInt : Json → Int
  | .int i => i
  | _ => 0

def jsonC : Conversions := ⟨jsonText, jsonInt⟩

theorem jsonC_faithful : Faithful jsonC latin := ⟨fun s _ => ascii_latin s, fun _ => rfl⟩

/-- An object of one string of `n` letters, without blanks. -/
def compact (n : Nat) : Text := ascii "\x7b\"a\":\"" ++ (List.replicate n 120 ++ ascii "\"\x7d")

def letters (n : Nat) : Json := .object [("a", .string (latin (List.replicate n 120)))]

theorem length_compact (n : Nat) : (compact n).length = n + 8 := by
  rw [compact, List.length_append, List.length_append, List.length_replicate]
  show 6 + (n + 2) = n + 8
  omega

/-- Three blanks more. -/
theorem text_letters (n : Nat) :
    jsonC.text (letters n) = ascii "\x7b \"a\": \"" ++ (List.replicate n 120 ++ ascii "\" \x7d") := by
  show 123 :: ([44].intercalate [ascii " \"" ++ ascii "a" ++ ascii "\": " ++
    34 :: (ascii (latin (List.replicate n 120)) ++ [34])] ++ ascii " \x7d") = _
  rw [ascii_latin, List.intercalate_singleton]
  show 123 :: 32 :: 34 :: 97 :: 34 :: 58 :: 32 :: 34 :: (List.replicate n 120 ++ [34] ++ ascii " \x7d") = _
  rw [List.append_assoc]
  rfl

theorem length_text_letters (n : Nat) : (jsonC.text (letters n)).length = n + 11 := by
  rw [text_letters, List.length_append, List.length_append, List.length_replicate]
  show 8 + (n + 3) = n + 11
  omega

/-- A request with this argument. -/
def letterJob (argument : CText 4095) : JobObject :=
  { JobDb.jaJobObjectInit with
    kind := JobDb.snprintf 15 (ascii "jobrun")
    hostname := JobDb.snprintf 127 (ascii "AGENT")
    jobid := 7
    version := 1
    argument := argument }

def compactText (n : Nat) (h : n + 8 ≤ 4095) : CText 4095 where
  bytes := compact n
  fits := by rw [length_compact]; exact h
  noNul := by
    simp only [compact, List.mem_append, List.mem_replicate, not_or]
    exact ⟨by decide, fun h => absurd h.2 (by decide), by decide⟩

/-- The telegram of the request. -/
def letterTelegram (n : Nat) (argument : CText 4095) : Json :=
  .object (jaTelegramToHead latin (letterJob argument) ++
    [("data", .object (requestData latin (letterJob argument) (letters n) (.object [])))])

/-- What json-c parses the texts in play to. -/
def letterParse (n : Nat) (argument : CText 4095) (t : Text) : Option Json :=
  if t = compact n ∨ t = jsonC.text (letters n) then some (letters n)
  else if t = ascii "\x7b\x7d" ∨ t = ascii "\x7b \x7d" then some (.object [])
  else if t = jsonC.text (letterTelegram n argument) then some (letterTelegram n argument)
  else none

theorem intercalate_cons (sep x : Text) (l : List Text) : ∃ rest, sep.intercalate (x :: l) = x ++ rest := by
  cases l with
  | nil => exact ⟨[], by rw [List.intercalate_singleton, List.append_nil]⟩
  | cons y l => exact ⟨_, by rw [List.intercalate_cons_cons, List.append_assoc]⟩

/-- An object's text starts with its first key. -/
theorem text_object_cons (key : String) (v : Json) (fields : List (String × Json)) :
    ∃ rest, jsonC.text (.object ((key, v) :: fields)) = ascii "\x7b \"" ++ (ascii key ++ rest) := by
  obtain ⟨rest, hrest⟩ := intercalate_cons [44] (ascii " \"" ++ ascii key ++ ascii "\": " ++ printAt 2 v)
    (fields.map fun f => ascii " \"" ++ ascii f.1 ++ ascii "\": " ++ printAt 2 f.2)
  refine ⟨ascii "\": " ++ printAt 2 v ++ rest ++ ascii " \x7d", ?_⟩
  show 123 :: ([44].intercalate (_ :: List.map _ fields) ++ ascii " \x7d") = _
  rw [hrest]
  simp only [List.append_assoc]
  rfl

/-- The texts in play are told apart by their first four bytes. -/
theorem take_letterTelegram (n : Nat) (argument : CText 4095) :
    (jsonC.text (letterTelegram n argument)).take 4 = ascii "\x7b \"k" := by
  obtain ⟨rest, hrest⟩ := text_object_cons "kind" (.string (latin (letterJob argument).kind.bytes)) _
  rw [letterTelegram, jaTelegramToHead, List.cons_append, hrest]
  rfl

section
variable {n : Nat} {argument : CText 4095}

theorem letterParse_empty {t : Text} (hlen : t.length < 8) :
    letterParse n argument t =
      if t = ascii "\x7b\x7d" ∨ t = ascii "\x7b \x7d" then some (.object [])
      else if t = jsonC.text (letterTelegram n argument) then some (letterTelegram n argument)
      else none := by
  refine if_neg fun h => ?_
  rcases h with rfl | rfl
  · rw [length_compact] at hlen
    omega
  · rw [length_text_letters] at hlen
    omega

theorem letterParse_telegram :
    letterParse n argument (jsonC.text (letterTelegram n argument)) = some (letterTelegram n argument) := by
  have hne : ∀ t : Text, t.take 4 ≠ ascii "\x7b \"k" → jsonC.text (letterTelegram n argument) ≠ t := by
    intro t ht he
    rw [← he] at ht
    exact ht (take_letterTelegram n argument)
  have hletters : ¬ (jsonC.text (letterTelegram n argument) = compact n ∨
      jsonC.text (letterTelegram n argument) = jsonC.text (letters n)) := by
    refine not_or.2 ⟨hne _ ?_, hne _ ?_⟩
    · rw [compact, List.take_append_of_le_length (by decide)]
      decide
    · rw [text_letters, List.take_append_of_le_length (by decide)]
      decide
  rw [letterParse, if_neg hletters, if_neg (not_or.2 ⟨hne _ (by decide), hne _ (by decide)⟩), if_pos rfl]

theorem letterTelegram_ne_letters : letterTelegram n argument ≠ letters n := by
  simp [letterTelegram, letters, jaTelegramToHead]

theorem letterTelegram_ne_empty : letterTelegram n argument ≠ .object [] := by
  simp [letterTelegram]

theorem letters_printsBack : PrintsBack jsonC (letterParse n argument) (letters n) where
  whole := if_pos (.inr rfl)
  part := by
    intro k hk hparse
    have hlen : ((jsonC.text (letters n)).take k).length = k := List.length_take_of_le (by omega)
    have hne : ¬ ((jsonC.text (letters n)).take k = compact n ∨
        (jsonC.text (letters n)).take k = jsonC.text (letters n)) := by
      intro h
      rcases h with h | h
      · -- the second byte of the printed text is a blank
        have hlong : 2 ≤ k := by
          have := congrArg List.length h
          rw [hlen, length_compact] at this
          omega
        have htwo := congrArg (List.take 2) h
        rw [List.take_take, Nat.min_eq_left hlong, text_letters, compact,
          List.take_append_of_le_length (by decide), List.take_append_of_le_length (by decide)] at htwo
        exact absurd htwo (by decide)
      · have := congrArg List.length h
        omega
    rw [letterParse, if_neg hne] at hparse
    split at hparse
    · simp [letters] at hparse
    · split at hparse
      · exact letterTelegram_ne_letters (Option.some.inj hparse)
      · cases hparse

theorem empty_printsBack : PrintsBack jsonC (letterParse n argument) (.object []) where
  whole := by
    show letterParse n argument (ascii "\x7b \x7d") = _
    rw [letterParse_empty (by decide), if_pos (.inr rfl)]
  part := by
    intro k hk hparse
    have htext : jsonC.text (.object []) = ascii "\x7b \x7d" := rfl
    rw [htext] at hk hparse
    have hthree : k < 3 := hk
    have hne : ∀ k < 3, ¬ ((ascii "\x7b \x7d").take k = ascii "\x7b\x7d" ∨
        (ascii "\x7b \x7d").take k = ascii "\x7b \x7d") := by decide
    rw [letterParse_empty (Nat.lt_of_le_of_lt (List.length_take_le _ _) (by omega)), if_neg (hne k hthree)]
      at hparse
    split at hparse
    · exact letterTelegram_ne_empty (Option.some.inj hparse)
    · cases hparse

theorem letterJob_request (h : n + 8 ≤ 4095) :
    Request (letterParse n (compactText n h)) (ascii "AGENT") (letterJob (compactText n h)) (letters n)
      (.object []) where
  kind := .inl rfl
  version := rfl
  hostname := rfl
  jobid := by
    show (0 : UInt64) < 7
    decide
  argumentText := by
    have hpos : 0 < (compact n).length := by
      rw [length_compact]
      omega
    show letterParse n _ (if 0 < (compact n).length then compact n else _) = _
    rw [if_pos hpos]
    exact if_pos (.inl rfl)
  argumentObject := rfl
  envText := by
    show letterParse n _ (ascii "\x7b\x7d") = _
    rw [letterParse_empty (by decide), if_pos (.inl rfl)]
  envObject := rfl

theorem letterTelegram_back (h : n + 8 ≤ 4095) :
    ∀ v ∈ telegramObject (letterParse n (compactText n h)) latin (ascii "AGENT") (letterJob (compactText n h)),
      letterParse n (compactText n h) (jsonC.text v) = some v := by
  intro v hv
  rw [telegramObject_request (letterJob_request h)] at hv
  obtain rfl := Option.some.inj hv
  exact letterParse_telegram

end

/-- A result with an output. -/
def outputJob : JobObject :=
  { JobDb.jaJobObjectInit with
    kind := JobDb.snprintf 15 (ascii "jobresult")
    hostname := JobDb.snprintf 127 (ascii "AGENT")
    jobid := 7
    version := 1
    stdOut := JobDb.snprintf 64000 (ascii "done")
    returnCode := 2 }

def outputTelegram : Json :=
  .object (jaTelegramToHead latin outputJob ++
    [("data", .object (jaTelegramToJobresult latin (ascii "AGENT") outputJob))])

def outputParse (t : Text) : Option Json := if t = jsonC.text outputTelegram then some outputTelegram else none

/-- A short argument arrives, and so does a result. -/
theorem telegrams_agree_short :
    RequestAgrees jsonC (letterParse 3 (compactText 3 (by decide))) latin (ascii "AGENT")
        (letterJob (compactText 3 (by decide))) jaJobObjectInit ∧
      ResultAgrees jsonC outputParse latin (ascii "AGENT") outputJob 0 := by
  constructor
  · refine ((telegrams_agree jsonC (letterParse 3 (compactText 3 (by decide))) latin (ascii "AGENT")
      jsonC_faithful).1 _ _ _ _ (letterJob_request _) (letterTelegram_back _) letters_printsBack
      empty_printsBack).2 ⟨?_, ?_⟩
    · rw [length_text_letters]
      decide
    · show 3 ≤ 4095
      decide
  · have hres : Result outputJob := ⟨rfl, .inl rfl⟩
    refine (telegrams_agree jsonC outputParse latin (ascii "AGENT") jsonC_faithful).2 outputJob 0 hres ?_
    intro v hv
    rw [telegramObject_result hres] at hv
    obtain rfl := Option.some.inj hv
    exact if_pos rfl

/-- An argument of 4095 bytes is printed with three blanks more, and arrives
without its end. -/
theorem argument_cut :
    Request (letterParse 4087 (compactText 4087 (by decide))) (ascii "AGENT")
        (letterJob (compactText 4087 (by decide))) (letters 4087) (.object []) ∧
      ¬ RequestAgrees jsonC (letterParse 4087 (compactText 4087 (by decide))) latin (ascii "AGENT")
        (letterJob (compactText 4087 (by decide))) jaJobObjectInit := by
  refine ⟨letterJob_request _, fun hagree => ?_⟩
  have hfits := ((requestAgrees_iff jsonC_faithful (letterJob_request _) (letterTelegram_back _) letters_printsBack
    empty_printsBack jaJobObjectInit).1 hagree).1
  rw [length_text_letters] at hfits
  omega

end JobArranger.Agent.Wire
