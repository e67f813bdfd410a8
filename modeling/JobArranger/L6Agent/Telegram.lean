import JobArranger.L5Server.Result
import JobArranger.L6Agent.Send
import Mathlib.Data.List.DropRight

/-!
# Reading a telegram

`ja_tcp_recv_to` receives one telegram into a job object and takes it apart
with `ja_telegram_from`. Both leave the fields they do not find as they
were: an object used for a second answer still holds the first. Two exits
return SUCCEED without a `result`: the one for empty data, which jumps to
the common label with the SUCCEED of the receive, and the reader of a
request, where the tag may be missing.

* `Response`: a well-formed answer with its result.
* `jaTelegramFrom_succeed`: what a successful read can have been.
* `saysSucceed_cases`: an object that says SUCCEED after a successful
  receive has read such an answer, or a mistaken one (`Mistaken`).
-/
namespace JobArranger.Agent

/-- `ja_job_object`, the fields a telegram fills. -/
structure JobTelegram where
  kind : Text
  version : Int
  serverid : Text
  hostname : Text
  jobid : Nat
  method : Int
  type : Text
  argument : Text
  script : Text
  env : Text
  result : Int
  message : Text
  stdOut : Text
  stdErr : Text
  returnCode : Int
  signal : Int
  runUser : Text
  runUserPassword : Text
  deriving DecidableEq, Repr

/-- mirrors src/jalibs/jajobobject.c:45-79 -/
def jaJobObjectInit : JobTelegram :=
  ⟨[], 0, [], [], 0, -1, [], [], [], [], 0, [], [], [], -1, 0, [], []⟩

/-- `JA_RESPONSE_*` (jacommon.h:285-288). -/
def responseSucceed : Int := 0

def responseVersionFail : Int := 1

def responseFail : Int := 2

/-- `JA_PROTO_TELE_VERSION` -/
def teleVersion : Int := 1

/-- `json_object_get_type(j) == json_type_object` -/
def isObject : Json → Bool
  | .object _ => true
  | _ => false

/-- mirrors src/libs/zbxcommon/misc.c:1547-1574 -/
def isUint64 (s : Text) : Option Nat :=
  if s = [] then none
  else s.foldl (fun v d => v.bind fun n =>
    if isDigit d then
      let m := 10 * n + (d.toNat - 48)
      if 2 ^ 64 ≤ m then none else some m
    else none) (some 0)

/-- The suffixes K, M, G, T.
mirrors src/libs/zbxcommon/misc.c:2033-2082 -/
def str2uint64 (s : Text) : Option Nat :=
  let factor : Nat := match s.getLast? with
    | some 75 => 2 ^ 10
    | some 77 => 2 ^ 20
    | some 71 => 2 ^ 30
    | some 84 => 2 ^ 40
    | _ => 1
  (isUint64 (if factor = 1 then s else s.dropLast)).map fun n => n * factor % 2 ^ 64

def tagMissing (tag : String) (data : Text) : Text :=
  ascii "Can't get the tag [" ++ ascii tag ++ ascii "] from json data [" ++ data ++ ascii "]"

section
variable (c : Conversions) (configHostname : Option Text)

/-- What `zbx_snprintf(field, size, "%s", s)` leaves of `s`. -/
def cut (size : Nat) (s : Text) : Text := s.take (size - 1)

/-- `if (jp != NULL) zbx_snprintf(field, size, "%s", …)` -/
def textField (data : Json) (tag : String) (size : Nat) (old : Text) : Text :=
  ((data.objectGet tag).map fun jp => cut size (c.text jp)).getD old

def intField (data : Json) (tag : String) (old : Int) : Int := ((data.objectGet tag).map c.int).getD old

/-- mirrors src/jalibs/jatelegram.c:324-431 -/
def jaTelegramFromHead (json : Json) (job : JobTelegram) : JobTelegram × Ret :=
  let telegram := c.text json
  if isObject json = false then
    -- a JSON `null` is the NULL pointer: no message
    match json with
    | .null => (job, .fail)
    | _ => ({ job with message := ascii "[" ++ telegram ++ ascii "] is not an object" }, .fail)
  else match json.objectGet "kind" with
    | none => ({ job with message := tagMissing "kind" telegram }, .fail)
    | some kind =>
      -- the 16 bytes hold every kind that is told apart below
      let job := { job with kind := c.text kind }
      match json.objectGet "serverid" with
      | none => ({ job with message := tagMissing "serverid" telegram }, .fail)
      | some serverid =>
        let job := { job with serverid := cut 18 (c.text serverid) }
        match json.objectGet "version" with
        | none => ({ job with message := tagMissing "version" telegram }, .fail)
        | some version =>
          let job := { job with version := c.int version }
          if job.version ≠ teleVersion then
            ({ job with
               result := responseVersionFail
               message := ascii "version:[" ++ intText job.version ++ ascii "] does not match [" ++
                 intText teleVersion ++ ascii "]" }, .fail)
          else
            let job := { job with
              hostname := textField c json "hostname" 128 ((configHostname.map (cut 128)).getD job.hostname) }
            if configHostname.any (· != job.hostname) then
              ({ job with message := ascii "hostname '" ++ job.hostname ++ ascii "' does not match Hostname" }, .fail)
            else match json.objectGet "data" with
              | none => ({ job with message := tagMissing "data" telegram }, .fail)
              | some data =>
                if isObject data = false then
                  ({ job with message := ascii "[data] is not an object from json data [" ++ telegram ++ ascii "]" },
                    .fail)
                else (job, .succeed)

/-- The tags of a request that may be missing.
mirrors src/jalibs/jatelegram.c:470-551 -/
def requestFields (data : Json) (job : JobTelegram) : JobTelegram :=
  { job with
    result := intField c data "result" job.result
    stdOut := textField c data "std_out" 64001 job.stdOut
    stdErr := textField c data "std_err" 64001 job.stdErr
    returnCode := intField c data "return_code" job.returnCode
    signal := intField c data "signal" job.signal
    message := textField c data "message" 1024 job.message
    runUser := textField c data "run_user" 1024 job.runUser
    runUserPassword := textField c data "run_user_password" 1024 job.runUserPassword }

/-- mirrors src/jalibs/jatelegram.c:433-553 -/
def jaTelegramFromRequest (json : Json) (job : JobTelegram) : JobTelegram × Ret :=
  match json.objectGet "data" with
  | none => (job, .fail)
  | some data =>
    match data.objectGet "jobid" with
    | none => ({ job with message := tagMissing "jobid" (c.text data) }, .fail)
    | some jobid =>
      let job := { job with jobid := (str2uint64 (c.text jobid)).getD job.jobid }
      if job.jobid = 0 then
        ({ job with message := ascii "jobid:[" ++ intText job.jobid ++ ascii "] must be more than 0" }, .fail)
      else match data.objectGet "method" with
        | none => ({ job with message := tagMissing "method" (c.text data) }, .fail)
        | some method =>
          let job := { job with
            method := c.int method
            type := textField c data "type" 1024 job.type
            argument := textField c data "argument" 4096 job.argument
            script := textField c data "script" 4096 job.script }
          match data.objectGet "env" with
          | none => (requestFields c data job, .succeed)
          | some env =>
            if isObject env = false then
              ({ job with
                 message := ascii "[env] is not an object from json data [" ++ c.text data ++ ascii "]" }, .fail)
            else (requestFields c data { job with env := cut 4096 (c.text env) }, .succeed)

/-- mirrors src/jalibs/jatelegram.c:566-613 -/
def jaTelegramFromResponse (json : Json) (job : JobTelegram) : JobTelegram × Ret :=
  match json.objectGet "data" with
  | none => (job, .fail)
  | some data =>
    match data.objectGet "result" with
    | none => ({ job with message := tagMissing "result" (c.text data) }, .fail)
    | some result =>
      let job := { job with result := c.int result }
      if job.result ≠ responseSucceed then
        ({ job with message := textField c data "message" 1024 job.message }, .succeed)
      else (job, .succeed)

/-- The kinds `ja_telegram_from` reads as a request. -/
def requestKind (kind : Text) : Bool :=
  kind = ascii "jobrun" ∨ kind = ascii "fcopy" ∨ kind = ascii "jobresult"

def responseKind (kind : Text) : Bool :=
  kind = ascii "jobrun-res" ∨ kind = ascii "jobresult-res" ∨ kind = ascii "fcopy-res"

/-- `parse` is `json_tokener_parse`, `none` when `is_error` holds of its
result. mirrors src/jalibs/jatelegram.c:262-322 -/
def jaTelegramFrom (parse : Text → Option Json) (telegram : Text) (job : JobTelegram) : JobTelegram × Ret :=
  match parse telegram with
  | none => ({ job with message := ascii "Can't parse json data. telegram: " ++ telegram }, .fail)
  | some json =>
    match jaTelegramFromHead c configHostname json job with
    | (job, .fail) => (job, .fail)
    | (job, .succeed) =>
      if requestKind job.kind then jaTelegramFromRequest c json job
      else if responseKind job.kind then jaTelegramFromResponse c json job
      else ({ job with message := ascii "Unsupport the kind [" ++ job.kind ++ ascii "]" }, .fail)

/-- `zbx_rtrim(data, "\r\n")` -/
def rtrim (data : Text) : Text := data.rdropWhile fun b => b == 13 || b == 10

/-- A receive: `none` is FAIL, with the error text beside it. An orderly close
with no telegram is the empty text. -/
abbrev Reception := Option Text

/-- A failed receive is tried once more.
mirrors src/jalibs/jatcp.c:145-192 -/
def jaTcpRecvTo (parse : Text → Option Json) (strerror : Text) (first second : Reception) (job : JobTelegram) :
    JobTelegram × Ret :=
  match first.or second with
  | none => ({ job with message := strerror }, .fail)
  | some data =>
    -- `ret` still holds the SUCCEED of `zbx_tcp_recv_to`
    if (cString data).length = 0 then ({ job with message := ascii "received data is null" }, .succeed)
    else jaTelegramFrom c configHostname parse (rtrim (cString data)) job

/-! ## What was read -/

/-- The head of a telegram is complete. -/
structure Head (json : Json) (kind : Text) : Prop where
  object : isObject json = true
  kind : ∃ k, json.objectGet "kind" = some k ∧ c.text k = kind
  serverid : (json.objectGet "serverid").isSome = true
  version : ∃ v, json.objectGet "version" = some v ∧ c.int v = teleVersion
  data : ∃ d, json.objectGet "data" = some d ∧ isObject d = true

/-- A well-formed response telegram. -/
structure Response (json : Json) (result : Int) : Prop where
  head : ∃ kind, Head c json kind ∧ responseKind kind = true
  result : ∃ d r, json.objectGet "data" = some d ∧ d.objectGet "result" = some r ∧ c.int r = result

variable {c}

theorem Head.kind_unique {json : Json} {kind kind' : Text} (h : Head c json kind) (h' : Head c json kind') :
    kind = kind' := by
  obtain ⟨k, hk, rfl⟩ := h.kind
  obtain ⟨k', hk', rfl⟩ := h'.kind
  rw [hk, Option.some.injEq] at hk'
  rw [hk']

theorem head_succeed {json : Json} {job job' : JobTelegram}
    (h : jaTelegramFromHead c none json job = (job', .succeed)) : Head c json job'.kind := by
  unfold jaTelegramFromHead at h
  cases hobj : isObject json with
  | false =>
    simp only [hobj, if_true] at h
    split at h <;> cases h
  | true =>
    simp only [hobj, Bool.true_eq_false, if_false] at h
    cases hk : json.objectGet "kind" with
    | none => simp [hk] at h
    | some kind =>
      cases hs : json.objectGet "serverid" with
      | none => simp [hk, hs] at h
      | some serverid =>
        cases hv : json.objectGet "version" with
        | none => simp [hk, hs, hv] at h
        | some version =>
          simp only [hk, hs, hv, Option.any_none, Bool.false_eq_true, if_false] at h
          split at h
          · cases h
          · rename_i hver
            cases hd : json.objectGet "data" with
            | none => simp [hd] at h
            | some data =>
              simp only [hd] at h
              split at h
              · cases h
              · rename_i hdata
                have hjob := congrArg (fun r : JobTelegram × Ret => r.1.kind) h
                exact ⟨hobj, ⟨kind, hk, hjob⟩, by simp [hs], ⟨version, hv, not_not.1 hver⟩,
                  ⟨data, hd, by simpa using hdata⟩⟩

/-- Reading the data leaves the kind alone. -/
theorem request_kind (json : Json) (job : JobTelegram) : (jaTelegramFromRequest c json job).1.kind = job.kind := by
  unfold jaTelegramFromRequest
  split
  · rfl
  split
  · rfl
  dsimp only
  split
  · rfl
  split
  · rfl
  split
  · rfl
  split <;> rfl

theorem response_kind (json : Json) (job : JobTelegram) : (jaTelegramFromResponse c json job).1.kind = job.kind := by
  unfold jaTelegramFromResponse
  split
  · rfl
  split
  · rfl
  dsimp only
  split <;> rfl

theorem response_succeed {json : Json} {job job' : JobTelegram}
    (h : jaTelegramFromResponse c json job = (job', .succeed)) :
    ∃ d r, json.objectGet "data" = some d ∧ d.objectGet "result" = some r ∧ c.int r = job'.result := by
  unfold jaTelegramFromResponse at h
  cases hd : json.objectGet "data" with
  | none => simp [hd] at h
  | some d =>
    cases hr : d.objectGet "result" with
    | none => simp [hd, hr] at h
    | some r =>
      simp only [hd, hr] at h
      refine ⟨d, r, rfl, hr, ?_⟩
      split at h
      · exact congrArg (fun x : JobTelegram × Ret => x.1.result) h
      · exact congrArg (fun x : JobTelegram × Ret => x.1.result) h

/-- A telegram that is read was a request, or a well-formed response. -/
theorem jaTelegramFrom_succeed {parse : Text → Option Json} {telegram : Text} {job job' : JobTelegram}
    (h : jaTelegramFrom c none parse telegram job = (job', .succeed)) :
    ∃ json, parse telegram = some json ∧ Head c json job'.kind ∧
      (requestKind job'.kind = true ∨ Response c json job'.result) := by
  unfold jaTelegramFrom at h
  cases hp : parse telegram with
  | none => simp [hp] at h
  | some json =>
    simp only [hp] at h
    split at h
    · cases h
    · rename_i job₁ hhead
      have hh := head_succeed hhead
      split at h
      · rename_i hkind
        have hk : job'.kind = job₁.kind := by
          rw [← request_kind (c := c) json job₁, h]
        exact ⟨json, rfl, hk ▸ hh, .inl (hk ▸ hkind)⟩
      · split at h
        · rename_i hkind
          have hk : job'.kind = job₁.kind := by
            rw [← response_kind (c := c) json job₁, h]
          exact ⟨json, rfl, hk ▸ hh, .inr ⟨⟨_, hh, hkind⟩, response_succeed h⟩⟩
        · cases h

/-- No kind is both. -/
theorem not_response_of_request {kind : Text} (h : requestKind kind = true) : responseKind kind = false := by
  unfold requestKind at h
  simp only [decide_eq_true_eq] at h
  rcases h with rfl | rfl | rfl <;> decide

/-! ## An object used twice -/

variable (c) (parse : Text → Option Json)

/-- A well-formed response with the result SUCCEED was received. -/
def Verified (first second : Reception) : Prop :=
  ∃ data json, first.or second = some data ∧ cString data ≠ [] ∧ parse (rtrim (cString data)) = some json ∧
    Response c json responseSucceed

/-- What was received is empty, or a telegram of the kind of a request that
is read without a result other than SUCCEED. -/
def Mistaken (job : JobTelegram) (first second : Reception) : Prop :=
  ∃ data, first.or second = some data ∧ (cString data = [] ∨
    requestKind (jaTelegramFrom c none parse (rtrim (cString data)) job).1.kind = true ∧
      (jaTelegramFrom c none parse (rtrim (cString data)) job).2 = .succeed ∧
      (jaTelegramFrom c none parse (rtrim (cString data)) job).1.result = responseSucceed)

/-- `ja_tcp_recv_to` succeeds, and the object says SUCCEED. -/
def SaysSucceed (strerror : Text) (first second : Reception) (job : JobTelegram) : Prop :=
  (jaTcpRecvTo c none parse strerror first second job).2 = .succeed ∧
    (jaTcpRecvTo c none parse strerror first second job).1.result = responseSucceed

instance (strerror : Text) (first second : Reception) (job : JobTelegram) :
    Decidable (SaysSucceed c parse strerror first second job) := inferInstanceAs (Decidable (_ ∧ _))

variable {c parse} {strerror : Text} {first second : Reception} {job : JobTelegram}

theorem saysSucceed_cases (h : SaysSucceed c parse strerror first second job) :
    Mistaken c parse job first second ∨ Verified c parse first second := by
  unfold SaysSucceed jaTcpRecvTo at h
  cases hr : first.or second with
  | none =>
    simp only [hr] at h
    cases h.1
  | some data =>
    simp only [hr, List.length_eq_zero_iff] at h
    by_cases he : cString data = []
    · exact .inl ⟨data, hr, .inl he⟩
    · rw [if_neg he] at h
      have hread : jaTelegramFrom c none parse (rtrim (cString data)) job =
          ((jaTelegramFrom c none parse (rtrim (cString data)) job).1, .succeed) := Prod.ext rfl h.1
      obtain ⟨json, hp, -, hreq | hres⟩ := jaTelegramFrom_succeed hread
      · exact .inl ⟨data, hr, .inr ⟨hreq, h⟩⟩
      · rw [h.2] at hres
        exact .inr ⟨data, json, hr, he, hp, hres⟩

/-- A mistaken answer leaves an object that said SUCCEED at SUCCEED. -/
theorem Mistaken.saysSucceed (h : Mistaken c parse job first second) (hjob : job.result = responseSucceed) :
    SaysSucceed c parse strerror first second job := by
  obtain ⟨data, hr, hcase⟩ := h
  unfold SaysSucceed jaTcpRecvTo
  simp only [hr, List.length_eq_zero_iff]
  by_cases he : cString data = []
  · rw [if_pos he]
    exact ⟨rfl, hjob⟩
  · rw [if_neg he]
    rcases hcase with he' | ⟨-, hread⟩
    · exact absurd he' he
    · exact hread

theorem Mistaken.not_verified (h : Mistaken c parse job first second) : ¬ Verified c parse first second := by
  intro hv
  obtain ⟨data, hr, hcase⟩ := h
  obtain ⟨data', json, hr', hne, hp, hres⟩ := hv
  rw [hr, Option.some.injEq] at hr'
  subst hr'
  rcases hcase with he | ⟨hreq, hread, -⟩
  · exact hne he
  · obtain ⟨json', hp', hhead, -⟩ := jaTelegramFrom_succeed
      (Prod.ext rfl hread : jaTelegramFrom c none parse (rtrim (cString data)) job = (_, .succeed))
    rw [hp, Option.some.injEq] at hp'
    subst hp'
    obtain ⟨kind, hkind, hrk⟩ := hres.head
    rw [hkind.kind_unique hhead, not_response_of_request hreq] at hrk
    cases hrk

end

end JobArranger.Agent
