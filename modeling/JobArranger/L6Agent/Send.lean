import JobArranger.Core.Json
import JobArranger.L1Data.Tables

/-!
# Delivering a job result

`ja_agent_close` sends the result of a job in END to the server and, when
`ja_agent_send` does not return FAIL, forgets the job: status CLOSE, and
the result files of a successful job are removed. `ja_agent_send` reuses
one variable `ret` for connect, send and receive; the exits for an empty
reply, for text that is not JSON and for JSON without the tag `data` jump
to the common label with the SUCCEED of the receive still in it, and the
tag `result` is only read for the log.

* `jaAgentSend_fails_iff`: only a failed exchange is reported as a failure.
* `attempt_law_iff`: one call of `ja_agent_close` keeps the law "forget
  only what was acknowledged" exactly when the reply is no reply at all or
  an acknowledgement.
-/
namespace JobArranger.Agent

/-- `JA_AGENT_METHOD_*` (jacommon.h:352-355). -/
inductive AgentMethod where
  | normal | test | abort | kill
  deriving DecidableEq, Repr

/-- `JA_AGENT_STATUS_*` (jacommon.h:358-362). -/
inductive AgentStatus where
  | init | begin | run | ended | closed
  deriving DecidableEq, Repr

/-- `ja_job_object`. `request` stands for the columns that come with the
telegram and are only copied (type, script, argument, environment, user);
`result` is `JA_JOBRESULT_SUCCEED` as `true`. -/
structure JobObject where
  jobid : Id
  method : AgentMethod
  request : Text
  result : Bool
  status : AgentStatus
  sendRetry : Nat
  deriving DecidableEq, Repr

/-- What the connection to the server does. The bytes of a reply may be
empty (`zbx_tcp_recv_to` returns SUCCEED on an orderly close). -/
inductive Exchange where
  | connectFails | sendFails | recvFails
  | reply (data : Text)
  deriving DecidableEq, Repr

/-- The C string in a buffer. -/
def cString (data : Text) : Text := data.takeWhile (· != 0)

section
variable (parse : Text → Option Json)

/-- `parse` is `json_tokener_parse`, `none` when `is_error` holds of its
result. mirrors src/jobarg_agent/jaagent.c:752-827 -/
def jaAgentSend (job : JobObject) (x : Exchange) : Ret :=
  if job.method = .abort then .succeed
  else match x with
    | .connectFails => .fail
    | .sendFails => .fail
    | .recvFails => .fail
    | .reply data =>
      -- from here on `ret` holds the SUCCEED of `zbx_tcp_recv_to`
      let ret := Ret.succeed
      if (cString data).length = 0 then ret
      else match parse (cString data) with
        | none => ret
        | some response =>
          match response.objectGet "data" with
          | none => ret
          -- `result` and `message` are read for the log only
          | some _ => .succeed

/-- What one call of `ja_agent_close` did: the job object, whether
`ja_jobdb_update` was called with it, whether `ja_jobfile_remove` was. -/
structure Closed where
  job : JobObject
  updated : Bool
  removed : Bool
  ret : Ret
  deriving DecidableEq, Repr

/-- `sendRetry` is `CONFIG_SEND_RETRY`. mirrors src/jobarg_agent/jaagent.c:710-737 -/
def jaAgentClose (sendRetry : Nat) (job : JobObject) (x : Exchange) : Closed :=
  match jaAgentSend parse job x with
  | .fail =>
    let job := { job with sendRetry := job.sendRetry + 1 }
    if job.sendRetry ≥ sendRetry then
      { job := { job with status := .closed }, updated := true, removed := false, ret := .fail }
    else { job, updated := false, removed := false, ret := .fail }
  | .succeed =>
    { job := { job with status := .closed }, updated := true, removed := job.result, ret := .succeed }

/-- The reply is a JSON object whose `data` contains a `result`. -/
def Acknowledged : Exchange → Prop
  | .reply data =>
    ∃ response d r, parse (cString data) = some response ∧ response.objectGet "data" = some d ∧
      d.objectGet "result" = some r
  | _ => False

/-- The exchange went through but what came back is no acknowledgement: an
empty reply, text that is not JSON, or JSON without `data` or `result`. -/
def Misread : Exchange → Prop
  | .reply data => ¬ Acknowledged parse (.reply data)
  | _ => False

/-- The law for one attempt: the job is forgotten only after an
acknowledgement; anything else is a failed attempt that is counted and
leaves the job in END, until `sendRetry` attempts have failed. -/
structure AttemptLaw (sendRetry : Nat) (job : JobObject) (x : Exchange) : Prop where
  delivered : (jaAgentClose parse sendRetry job x).ret = .succeed → Acknowledged parse x
  removed : (jaAgentClose parse sendRetry job x).removed = true → Acknowledged parse x
  failed : ¬ Acknowledged parse x → (jaAgentClose parse sendRetry job x).ret = .fail
  counted : ¬ Acknowledged parse x →
    (jaAgentClose parse sendRetry job x).job.sendRetry = job.sendRetry + 1
  kept : ¬ Acknowledged parse x → job.sendRetry + 1 < sendRetry →
    (jaAgentClose parse sendRetry job x).job.status = .ended
  given_up : ¬ Acknowledged parse x → sendRetry ≤ job.sendRetry + 1 →
    (jaAgentClose parse sendRetry job x).job.status = .closed

variable {parse}

/-- Every reply, whatever its bytes, leaves `ret` at SUCCEED. -/
theorem jaAgentSend_reply (job : JobObject) (data : Text) :
    jaAgentSend parse job (.reply data) = .succeed := by
  unfold jaAgentSend
  split
  · rfl
  simp only
  split
  · rfl
  split
  · rfl
  split <;> rfl

theorem jaAgentSend_fails_iff {job : JobObject} (hm : job.method ≠ .abort) (x : Exchange) :
    jaAgentSend parse job x = .fail ↔ ∀ data, x ≠ .reply data := by
  cases x with
  | reply data => simp [jaAgentSend_reply]
  | connectFails => simp [jaAgentSend, hm]
  | sendFails => simp [jaAgentSend, hm]
  | recvFails => simp [jaAgentSend, hm]

theorem jaAgentClose_fail {job : JobObject} {x : Exchange} (sendRetry : Nat)
    (h : jaAgentSend parse job x = .fail) :
    (jaAgentClose parse sendRetry job x).ret = .fail ∧
    (jaAgentClose parse sendRetry job x).removed = false ∧
    (jaAgentClose parse sendRetry job x).job.sendRetry = job.sendRetry + 1 ∧
    (jaAgentClose parse sendRetry job x).job.status =
      if job.sendRetry + 1 ≥ sendRetry then .closed else job.status := by
  simp only [jaAgentClose, h]
  split <;> simp

theorem jaAgentClose_succeed {job : JobObject} {x : Exchange} (sendRetry : Nat)
    (h : jaAgentSend parse job x = .succeed) : (jaAgentClose parse sendRetry job x).ret = .succeed := by
  simp [jaAgentClose, h]

/-- **The agent forgets a result only after an acknowledgement** exactly
when no reply is misread. -/
theorem attempt_law_iff (parse : Text → Option Json) (sendRetry : Nat) (job : JobObject) (x : Exchange)
    (hm : job.method ≠ .abort) (hs : job.status = .ended) :
    AttemptLaw parse sendRetry job x ↔ ¬ Misread parse x := by
  constructor
  · intro hlaw hmis
    cases x with
    | reply data => exact hmis (hlaw.delivered (jaAgentClose_succeed _ (jaAgentSend_reply job data)))
    | connectFails => exact hmis
    | sendFails => exact hmis
    | recvFails => exact hmis
  · intro hmis
    by_cases hack : Acknowledged parse x
    · refine ⟨fun _ => hack, fun _ => hack, ?_, ?_, ?_, ?_⟩ <;> exact fun h => absurd hack h
    · have hfail : jaAgentSend parse job x = .fail := by
        rw [jaAgentSend_fails_iff hm]
        intro data hx
        subst hx
        exact hmis hack
      obtain ⟨hret, hrem, hcount, hstat⟩ := jaAgentClose_fail sendRetry hfail
      refine ⟨?_, ?_, fun _ => hret, fun _ => hcount, ?_, ?_⟩
      · simp [hret]
      · simp [hrem]
      · intro _ hlt
        rw [hstat, if_neg (by omega), hs]
      · intro _ hge
        rw [hstat, if_pos hge]

end

/-- A job whose result is waiting, and a parser that rejects every text. -/
def endedJob : JobObject :=
  { jobid := 1, method := .normal, request := [], result := true, status := .ended, sendRetry := 0 }

/-- A connection that closes without an answer meets the law after a failed
send, not after an orderly close. -/
theorem attempt_law_iff_endedJob :
    AttemptLaw (fun _ => none) 5 endedJob .recvFails ∧
    ¬ AttemptLaw (fun _ => none) 5 endedJob (.reply []) := by
  constructor
  · rw [attempt_law_iff _ _ _ _ (by decide) rfl]
    exact id
  · rw [attempt_law_iff _ _ _ _ (by decide) rfl]
    simp [Misread, Acknowledged]

/-- The server closes the connection without an answer: the job is closed
as delivered and its files are gone. -/
theorem empty_reply_forgets :
    (jaAgentClose (fun _ => none) 5 endedJob (.reply [])).job.status = .closed ∧
    (jaAgentClose (fun _ => none) 5 endedJob (.reply [])).removed = true ∧
    ¬ AttemptLaw (fun _ => none) 5 endedJob (.reply []) := by
  refine ⟨rfl, rfl, ?_⟩
  intro h
  have hack := h.delivered rfl
  simp [Acknowledged] at hack

end JobArranger.Agent
