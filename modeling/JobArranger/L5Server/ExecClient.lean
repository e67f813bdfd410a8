import JobArranger.L5Server.ExecRequest
import JobArranger.L7Input.Timestamp
import JobArranger.L7Input.ZbxJsonWrite

/-!
# From the command line to the tables (`jobarg_exec/jobarg_exec.c`)

`jobarg_exec` writes its options and the values of some of its environment
variables into a request, and the trapper reads them out of it again. On the
way the text is parsed and printed by json-c, which is not part of the
repository: `JsonC` has the functions that are called, and `JsonC.Lawful`
what they are relied on for.

* `jobargExec_eq`: the text is that of a tree of members.
* `request_handled`: what the server does with a request depends on the
  options only, cut to the size of its buffer.
* `start_time_agrees`: which start times pass the checks of both sides.
-/
namespace JobArranger.ExecClient

open JsonText ZbxJson ExecRequest
open Agent (cString)
open Agent.JobDb (atoi)

/-! ## The options -/

/-- The line matches `^[-]{0,1}[0-9]+[.]{0,1}[0-9]*$`. -/
def isNumberLine (line : Text) : Bool :=
  let digits := if line.head? = some 0x2d then line.tail else line
  let rest := digits.dropWhile isDigit
  digits.head?.any isDigit && (if rest.head? = some 0x2e then rest.tail else rest).all isDigit

/-- The expression is compiled with `REG_NEWLINE`: one line has to match.
mirrors src/jobarg_exec/jobarg_exec.c:127-135 -/
def isNumber (str : Text) : Bool := (str.splitOn 0x0a).any isNumberLine

/-- `atoi` of the two bytes at `i`. -/
def pairAt (t : Text) (i : Nat) : Int := (atoi ((t.drop i).take 2)).toInt

/-- `zbx_strlcpy(YMdhm, str, 12)` copies eleven bytes of the twelve.
mirrors src/jobarg_exec/jobarg_exec.c:137-250 -/
def ymdhmCheck (str : Text) : Bool :=
  let ymdhm := str.take 11
  let month := pairAt ymdhm 4
  let day := pairAt ymdhm 6
  let year := (atoi (str.take 4)).toInt
  let hour := pairAt ymdhm 8
  let minute := pairAt ymdhm 10
  str.length = 12 && isNumber str && !(month < 1 || 12 < month) && !(day < 1 || 31 < day) &&
    !((month = 4 || month = 6 || month = 9 || month = 11) && day = 31) &&
    !(month = 2 &&
      (if Int.tmod year 4 = 0 && (Int.tmod year 100 ≠ 0 || Int.tmod year 400 = 0) then 29 < day else 28 < day)) &&
    !(hour < 0 || 23 < hour) && !(minute < 0 || 59 < minute)

structure ExecArgs where
  username : Text
  password : Text
  jobnetid : Text
  startTime : Option Text
  deterrence : Bool
  envVariables : Option Text

/-- The tokens of `strtok(copy, ",")`. -/
def strtok (s : Text) : List Text := (s.splitOn 0x2c).filter (· ≠ [])

section
variable (getenv : Text → Option Text)

/-- The loop over the tokens; `none` is the exit at a variable that is not set.
mirrors src/jobarg_exec/jobarg_exec.c:486-521 -/
def addEnv : List Text → Writer → Option Writer
  | [], j => some j
  | tp :: tps, j => (getenv tp).bind fun env => addEnv tps (j.addString (some tp) (some env) true)

/-- Without a token `strcmp` gets a null pointer: `none`.
mirrors src/jobarg_exec/jobarg_exec.c:479-524 -/
def addEnvObject (names : Text) (j : Writer) : Option Writer :=
  if strtok names = [] then none
  else (addEnv getenv (strtok names) (j.addObject (some (ascii "env")) true)).map fun j => j.close.2

/-- The request up to the members of `data`. -/
def openData : Writer :=
  let json := zbxJsonInit zbxJsonStatBufLen
  let json := json.addString (some (ascii "kind")) (some (ascii "jobnetrun")) true
  let json := json.addUint64 (ascii "version") 1
  json.addObject (some (ascii "data")) true

/-- mirrors src/jobarg_exec/jobarg_exec.c:466-477 -/
def addStart (args : ExecArgs) (json : Writer) : Option Writer :=
  match args.startTime with
  | none => some json
  | some startTime =>
    if ymdhmCheck startTime then
      let json := json.addString (some (ascii "start_time")) (some startTime) true
      some (json.addString (some (ascii "deterrence")) (some (ascii (if args.deterrence then "1" else "0"))) true)
    else none

/-- The text that is sent. mirrors src/jobarg_exec/jobarg_exec.c:452-529 -/
def jobargExec (args : ExecArgs) : Option Text :=
  let json := openData
  let json := json.addString (some (ascii "username")) (some args.username) true
  let json := json.addString (some (ascii "password")) (some args.password) true
  let json := json.addString (some (ascii "jobnetid")) (some args.jobnetid) true
  (addStart args json).bind fun json =>
    (args.envVariables.elim (some json) fun names => addEnvObject getenv names json).map fun json =>
      json.close.2.close.2.buffer

/-- The variables that are named, with their values. -/
def ExecArgs.envPairs (args : ExecArgs) : List (Text × Text) :=
  (args.envVariables.elim [] strtok).map fun n => (n, (getenv n).getD [])

end

/-! ## The server's side -/

/-- mirrors src/libs/zbxcommon/str.c:379-394 -/
def zbxRtrim (charlist str : Text) : Text := (str.reverse.dropWhile (· ∈ charlist)).reverse

/-- What `process_jatrap` calls. -/
inductive Trap where
  | error (message : String)
  | jobresult
  | jobnetrun (jp : JsonParse)
  | jobnetstatusrq (jp : JsonParse)

/-- mirrors src/jobarg_server/jatrapper/jatrapper.c:909-965 -/
def processJatrap (s : Text) : Trap :=
  match zbxJsonOpen (zbxRtrim (ascii " \r\n") s) with
  | none => .error "Received message error: [JSON format error]"
  | some jp =>
    match valueOf jp "kind" with
    | none => .error "Received message error: [kind] not found"
    | some value =>
      if value = ascii "jobresult" then .jobresult
      else if value = ascii "jobnetrun" then .jobnetrun jp
      else if value = ascii "jobnetstatusrq" then .jobnetstatusrq jp
      else .error "Received message error: [kind] is not correct."

/-- The functions of json-c that the trapper calls: `json_tokener_parse`,
`json_object_to_json_string`, `json_object_object_get`, `json_object_get_string`. -/
structure JsonC where
  Object : Type
  parse : Text → Option Object
  print : Object → Text
  get : Object → Text → Option Object
  getString : Object → Text

/-- The requests that are for others, by their kind; `none` is `FAIL`.
mirrors src/jobarg_server/jatrapper/jatrapkind.c:55-110 -/
def jatrapKind (c : JsonC) (request : c.Object) : Option Text :=
  if (c.get request (ascii "data")).isNone then none
  else (c.get request (ascii "kind")).bind fun jp =>
    let kind := c.getString jp
    if (c.get request (ascii "version")).isNone then none
    else if kind ∈ [ascii "jobresult", ascii "job.release", ascii "job.logput"] then some kind
    else none

inductive Received where
  | error
  | kind (kind : Text)
  | trap (t : Trap)

/-- `process_jatrap` gets the text that json-c makes of what it has parsed.
mirrors src/jobarg_server/jatrapper/jatrapper.c:1013-1035 -/
def processJatrapper (c : JsonC) (data : Text) : Received :=
  if data = [] then .error
  else match c.parse data with
    | none => .error
    | some request =>
      match jatrapKind c request with
      | some kind => .kind kind
      | none => .trap (processJatrap (c.print request))

/-- What json-c makes of the text of a tree. It prints the members in their
order, with its own white space and escapes. -/
structure JsonC.Reads (c : JsonC) (text : Text) (fields : Fields) (request : c.Object) : Prop where
  parsed : c.parse text = some request
  printed : ∃ ms, Says fields ms ∧ compact false (c.print request) = object ms ∧
    (c.print request).getLast? = some 0x7d
  missing : ∀ name, fields.lookup name = none → c.get request name = none
  found : ∀ name, fields.lookup name ≠ none → c.get request name ≠ none
  string : ∀ name value jp, fields.lookup name = some (.string (some value)) → c.get request name = some jp →
    c.getString jp = value

/-- What json-c keeps of a tree: C strings, signed integers, and one member
of a name. -/
def Clean : Fields → Prop
  | .nil => True
  | .string name value rest => (∀ t, value = some t → 0 ∉ t) ∧ name ∉ rest.names ∧ Clean rest
  | .uint64 name value rest => value.toNat < 2 ^ 63 ∧ name ∉ rest.names ∧ Clean rest
  | .object name inner rest => Clean inner ∧ name ∉ rest.names ∧ Clean rest

def depth : Fields → Nat
  | .nil => 1
  | .string _ _ rest => depth rest
  | .uint64 _ _ rest => depth rest
  | .object _ inner rest => max (depth inner + 1) (depth rest)

/-- The parser goes down 31 levels. -/
def JsonC.Lawful (c : JsonC) : Prop :=
  ∀ allocate fields, fields.Named → Clean fields → depth fields < 32 →
    ∃ request, c.Reads (zbxJson allocate fields) fields request

/-! ## What the request says -/

/-- A text in a `char[MAX_STRING_LEN]`. -/
def cut (t : Text) : Text := t.take (zbxMaxStringLen - 1)

/-- The options as the server has them. -/
def ExecArgs.request (args : ExecArgs) : Request where
  username := cut args.username
  password := cut args.password
  jobnetid := cut args.jobnetid
  starttime := args.startTime
  deterrence := if args.startTime.isSome && args.deterrence then 1 else 0

/-- What is to be done with a request. -/
def handled (passed : Text → Bool) (users : Users) (fault : Nat → Bool) (db : ExecDb) (er : Request)
    (ps : List (Text × Text)) : ExecDb × Except String Id :=
  if er.starttime.any passed then (db, .error "Received message error: [start_time] already passed.")
  else if jobExecAuth users db er then (transaction er ps).transact fault db committed
  else (db, .error "Authentication failure.")

/-- The strings of the options are C strings, no variable is named twice, and
the variables fit into the arrays and the buffer of the server. -/
structure ExecArgs.Fits (args : ExecArgs) (getenv : Text → Option Text) : Prop where
  username : 0 ∉ args.username
  password : 0 ∉ args.password
  jobnetid : 0 ∉ args.jobnetid
  startTime : ∀ t, args.startTime = some t → 0 ∉ t
  names : ∀ v ∈ args.envPairs getenv, 0 ∉ v.1 ∧ v.1.length < zbxMaxStringLen ∧ 0 ∉ v.2
  once : ((args.envPairs getenv).map Prod.fst).Nodup
  few : (args.envPairs getenv).length < arraySize

/-! ## The text as a tree -/

/-- Strings one behind the other. -/
def stringFields (vs : List (Text × Text)) (rest : Fields) : Fields :=
  vs.foldr (fun v rest => .string v.1 (some v.2) rest) rest

def ExecArgs.envFields (args : ExecArgs) (getenv : Text → Option Text) : Fields :=
  if args.envVariables.isSome then .object (ascii "env") (stringFields (args.envPairs getenv) .nil) .nil else .nil

def ExecArgs.startFields (args : ExecArgs) : List (Text × Text) :=
  args.startTime.elim [] fun t =>
    [(ascii "start_time", t), (ascii "deterrence", ascii (if args.deterrence then "1" else "0"))]

def ExecArgs.dataFields (args : ExecArgs) (getenv : Text → Option Text) : Fields :=
  stringFields ([(ascii "username", args.username), (ascii "password", args.password),
    (ascii "jobnetid", args.jobnetid)] ++ args.startFields) (args.envFields getenv)

def ExecArgs.fields (args : ExecArgs) (getenv : Text → Option Text) : Fields :=
  .string (ascii "kind") (some (ascii "jobnetrun"))
    (.uint64 (ascii "version") 1 (.object (ascii "data") (args.dataFields getenv) .nil))

theorem write_stringFields (vs : List (Text × Text)) (rest : Fields) (j : Writer) :
    (stringFields vs rest).write j = rest.write (vs.foldl (fun j v => j.addString (some v.1) (some v.2) true) j) := by
  induction vs generalizing j with
  | nil => rfl
  | cons v vs ih => exact ih _

theorem addEnv_some {getenv : Text → Option Text} {tps : List Text} {j j' : Writer} (h : addEnv getenv tps j = some j') :
    j' = (stringFields (tps.map fun n => (n, (getenv n).getD [])) .nil).write j := by
  induction tps generalizing j with
  | nil => exact (Option.some.inj h).symm
  | cons tp tps ih =>
    obtain ⟨env, henv, hrest⟩ := Option.bind_eq_some_iff.1 h
    rw [ih hrest]
    simp [stringFields, Fields.write, henv]

theorem addEnvObject_some {getenv : Text → Option Text} {names : Text} {j j' : Writer}
    (h : addEnvObject getenv names j = some j') :
    j' = (Fields.object (ascii "env") (stringFields ((strtok names).map fun n => (n, (getenv n).getD [])) .nil)
      .nil).write j := by
  unfold addEnvObject at h
  split at h
  · cases h
  · obtain ⟨k, hk, rfl⟩ := Option.map_eq_some_iff.1 h
    rw [addEnv_some hk]
    rfl

theorem close_buffer (j : Writer) : j.close.2.buffer = j.buffer := by
  unfold Writer.close
  split <;> rfl

/-- The members of a list, added one behind the other. -/
def addStrings (vs : List (Text × Text)) (j : Writer) : Writer :=
  vs.foldl (fun j v => j.addString (some v.1) (some v.2) true) j

theorem addStart_some {args : ExecArgs} {j j' : Writer} (h : addStart args j = some j') :
    j' = addStrings args.startFields j ∧ ∀ t, args.startTime = some t → ymdhmCheck t = true := by
  obtain ⟨username, password, jobnetid, startTime, deterrence, envVariables⟩ := args
  cases startTime with
  | none => exact ⟨(Option.some.inj h).symm, by simp⟩
  | some t =>
    simp only [addStart] at h
    split at h
    · rename_i hcheck
      exact ⟨(Option.some.inj h).symm, fun t' ht => Option.some.inj ht ▸ hcheck⟩
    · cases h

/-- What is sent is the text of the tree, and its start time was checked. -/
theorem jobargExec_eq {getenv : Text → Option Text} {args : ExecArgs} {text : Text}
    (h : jobargExec getenv args = some text) :
    text = zbxJson zbxJsonStatBufLen (args.fields getenv) ∧ ∀ t, args.startTime = some t → ymdhmCheck t = true := by
  obtain ⟨j, hj, h⟩ := Option.bind_eq_some_iff.1 h
  obtain ⟨rfl, hcheck⟩ := addStart_some hj
  refine ⟨?_, hcheck⟩
  obtain ⟨json, hjson, rfl⟩ := Option.map_eq_some_iff.1 h
  have henv : json = (args.envFields getenv).write (addStrings args.startFields (addStrings
      [(ascii "username", args.username), (ascii "password", args.password), (ascii "jobnetid", args.jobnetid)]
      openData)) := by
    unfold ExecArgs.envFields ExecArgs.envPairs
    cases hv : args.envVariables with
    | none =>
      rw [hv] at hjson
      exact (Option.some.inj hjson).symm
    | some names =>
      rw [hv] at hjson
      exact addEnvObject_some hjson
  have hdata : json = (args.dataFields getenv).write openData := by
    rw [henv, ExecArgs.dataFields, write_stringFields, List.foldl_append]
    rfl
  rw [close_buffer, hdata]
  rfl

/-! ## Reading the tree -/

theorem stringFields_named {vs : List (Text × Text)} {rest : Fields}
    (h : ∀ v ∈ vs, 0 ∉ v.1 ∧ v.1.length < zbxMaxStringLen) (hrest : rest.Named) : (stringFields vs rest).Named := by
  induction vs with
  | nil => exact hrest
  | cons v vs ih => exact ⟨h v List.mem_cons_self, ih fun v hv => h v (List.mem_cons_of_mem _ hv)⟩

theorem lookup_stringFields (vs : List (Text × Text)) (name : Text) :
    (stringFields vs .nil).lookup name = (vs.find? (·.1 = name)).map fun v => .string (some v.2) := by
  induction vs with
  | nil => rfl
  | cons v vs ih =>
    by_cases hv : v.1 = name
    · simp [stringFields, Fields.lookup, hv]
    · simpa [stringFields, Fields.lookup, hv] using ih

theorem names_stringFields (vs : List (Text × Text)) : (stringFields vs .nil).names = vs.map Prod.fst := by
  induction vs with
  | nil => rfl
  | cons v vs ih => simpa [stringFields, Fields.names] using ih

/-- The only variable of its name is the first. -/
theorem find_of_once {vs : List (Text × Text)} (h : (vs.map Prod.fst).Nodup) {v : Text × Text} (hv : v ∈ vs) :
    vs.find? (·.1 = v.1) = some v := by
  induction vs with
  | nil => cases hv
  | cons w vs ih =>
    obtain ⟨hw, hvs⟩ := List.nodup_cons.1 h
    obtain rfl | hv := List.mem_cons.1 hv
    · simp
    · have hne : w.1 ≠ v.1 := fun heq => hw (heq ▸ List.mem_map_of_mem hv)
      simpa [hne] using ih hvs hv

theorem clean_stringFields {vs : List (Text × Text)} {rest : Fields} (h : ∀ v ∈ vs, 0 ∉ v.2)
    (honce : (vs.map Prod.fst).Nodup) (hnew : ∀ v ∈ vs, v.1 ∉ rest.names) (hrest : Clean rest) :
    Clean (stringFields vs rest) ∧ depth (stringFields vs rest) = depth rest := by
  induction vs with
  | nil => exact ⟨hrest, rfl⟩
  | cons v vs ih =>
    obtain ⟨hv, hvs⟩ := List.forall_mem_cons.1 h
    obtain ⟨hfirst, hlater⟩ := List.nodup_cons.1 honce
    obtain ⟨hv', hvs'⟩ := List.forall_mem_cons.1 hnew
    obtain ⟨hclean, hdepth⟩ := ih hvs hlater hvs'
    have hnames : (stringFields vs rest).names = vs.map Prod.fst ++ rest.names := by
      clear h honce hnew ih hvs hlater hvs' hclean hdepth hfirst
      induction vs with
      | nil => rfl
      | cons w vs ih => simpa [stringFields, Fields.names] using ih
    refine ⟨⟨fun t ht => Option.some.inj ht ▸ hv, ?_, hclean⟩, hdepth⟩
    rw [show List.foldr _ rest vs = stringFields vs rest from rfl, hnames, List.mem_append]
    exact fun hmem => hmem.elim hfirst hv'

theorem cString_cut {t : Text} (h : 0 ∉ t) : cString (cut t) = cut t :=
  List.takeWhile_eq_self_iff.2 fun b hb => by
    have hne : b ≠ 0 := fun h0 => h (h0 ▸ List.mem_of_mem_take hb)
    simpa using hne

section
variable {fields : Fields} {ms : List Member} {rest : Text} {tag : String}

theorem valueOf_cut (hs : Says fields ms) (h : fields.Named) {v : Text}
    (hl : fields.lookup (ascii tag) = some (.string (some v))) (hv : 0 ∉ v) :
    valueOf (opened ms rest) tag = some (cut v) := by
  have hcut : cString (v.take (zbxMaxStringLen - 1)) = cut v := cString_cut hv
  simp only [valueOf, hs.valueByName h, hl, readField, hcut]

theorem valueOf_missing (hs : Says fields ms) (h : fields.Named) (hl : fields.lookup (ascii tag) = none) :
    valueOf (opened ms rest) tag = none := by
  simp only [valueOf, hs.valueByName h, hl, readField]

end

section
variable {args : ExecArgs} {getenv : Text → Option Text}

theorem ExecArgs.Fits.env (h : args.Fits getenv) : (args.envFields getenv).Named := by
  unfold ExecArgs.envFields
  split
  · exact ⟨⟨by decide, by decide⟩,
      stringFields_named (fun v hv => ⟨(h.names v hv).1, (h.names v hv).2.1⟩) trivial, trivial⟩
  · trivial

theorem startFields_names (args : ExecArgs) :
    args.startFields.map Prod.fst ⊆ [ascii "start_time", ascii "deterrence"] := by
  unfold ExecArgs.startFields
  cases args.startTime with
  | none => exact List.nil_subset _
  | some t => exact List.Subset.refl _

/-- The names of the texts in `data`. -/
def dataNames : List Text :=
  [ascii "username", ascii "password", ascii "jobnetid", ascii "start_time", ascii "deterrence"]

theorem dataNames_mem {v : Text × Text} (hv : v ∈ [(ascii "username", args.username), (ascii "password", args.password),
    (ascii "jobnetid", args.jobnetid)] ++ args.startFields) : v.1 ∈ dataNames := by
  obtain hv | hv := List.mem_append.1 hv
  · exact List.mem_of_mem_take (i := 3) (List.mem_map_of_mem (f := Prod.fst) hv)
  · exact List.mem_of_mem_drop (i := 3) (startFields_names args (List.mem_map_of_mem hv))

theorem ExecArgs.Fits.data (h : args.Fits getenv) : (args.dataFields getenv).Named := by
  have hall : ∀ n ∈ dataNames, 0 ∉ n ∧ n.length < zbxMaxStringLen := by decide
  exact stringFields_named (fun v hv => hall v.1 (dataNames_mem hv)) h.env

theorem ExecArgs.Fits.all (h : args.Fits getenv) : (args.fields getenv).Named :=
  ⟨⟨by decide, by decide⟩, ⟨by decide, by decide⟩, ⟨by decide, by decide⟩, h.data, trivial⟩

theorem clean_envFields (h : args.Fits getenv) :
    Clean (args.envFields getenv) ∧ depth (args.envFields getenv) ≤ 2 ∧ (args.envFields getenv).names ⊆ [ascii "env"] := by
  unfold ExecArgs.envFields
  split
  · have hlast : ∀ v ∈ args.envPairs getenv, v.1 ∉ Fields.names .nil := fun _ _ => List.not_mem_nil
    obtain ⟨hclean, hdepth⟩ := clean_stringFields (fun v hv => (h.names v hv).2.2) h.once hlast trivial
    refine ⟨⟨hclean, List.not_mem_nil, trivial⟩, ?_, List.Subset.refl _⟩
    rw [depth, hdepth]
    exact Nat.le_refl 2
  · exact ⟨trivial, Nat.le_succ 1, List.nil_subset _⟩

/-- json-c keeps what is sent. -/
theorem ExecArgs.Fits.clean (h : args.Fits getenv) :
    Clean (args.fields getenv) ∧ depth (args.fields getenv) < 32 := by
  obtain ⟨henv, hdepth, hnames⟩ := clean_envFields h
  have hdata : Clean (args.dataFields getenv) ∧ depth (args.dataFields getenv) = depth (args.envFields getenv) := by
    refine clean_stringFields (fun v hv => ?_) ?_ (fun v hv hmem => ?_) henv
    · obtain hv | hv := List.mem_append.1 hv
      · simp only [List.mem_cons, List.not_mem_nil, or_false] at hv
        obtain rfl | rfl | rfl := hv
        · exact h.username
        · exact h.password
        · exact h.jobnetid
      · unfold ExecArgs.startFields at hv
        cases ht : args.startTime with
        | none =>
          rw [ht] at hv
          cases hv
        | some t =>
          rw [ht] at hv
          simp only [Option.elim_some, List.mem_cons, List.not_mem_nil, or_false] at hv
          obtain rfl | rfl := hv
          · exact h.startTime t ht
          · cases args.deterrence <;> decide
    · have hstart : args.startFields.map Prod.fst = [] ∨
          args.startFields.map Prod.fst = [ascii "start_time", ascii "deterrence"] := by
        unfold ExecArgs.startFields
        cases args.startTime with
        | none => exact .inl rfl
        | some t => exact .inr rfl
      have hall : dataNames.Nodup := by decide
      have hthree : (dataNames.take 3).Nodup := hall.sublist (List.take_sublist _ _)
      rw [List.map_append]
      obtain hstart | hstart := hstart
      · rw [hstart]
        exact hthree
      · rw [hstart]
        exact hall
    · have henv : v.1 = ascii "env" := List.mem_singleton.1 (hnames hmem)
      have hname := dataNames_mem hv
      rw [henv] at hname
      exact absurd hname (by decide)
  have hkind : ascii "kind" ∉ [ascii "version", ascii "data"] := by decide
  have hversion : ascii "version" ∉ [ascii "data"] := by decide
  refine ⟨⟨fun t ht => ?_, hkind, by decide, hversion, hdata.1, List.not_mem_nil, trivial⟩, ?_⟩
  · obtain rfl := Option.some.inj ht
    decide
  · simp only [ExecArgs.fields, depth, hdata.2]
    omega

theorem lookup_head (args : ExecArgs) (getenv : Text → Option Text) :
    (args.dataFields getenv).lookup (ascii "username") = some (.string (some args.username)) ∧
      (args.dataFields getenv).lookup (ascii "password") = some (.string (some args.password)) ∧
      (args.dataFields getenv).lookup (ascii "jobnetid") = some (.string (some args.jobnetid)) :=
  ⟨rfl, rfl, rfl⟩

/-- The members of `data` that depend on the options. -/
theorem lookup_options (args : ExecArgs) (getenv : Text → Option Text) :
    (args.dataFields getenv).lookup (ascii "start_time") = args.startTime.map (fun t => .string (some t)) ∧
      (args.dataFields getenv).lookup (ascii "deterrence") =
        args.startTime.map (fun _ => .string (some (ascii (if args.deterrence then "1" else "0")))) ∧
      (args.dataFields getenv).lookup (ascii "env") =
        args.envVariables.map (fun _ => .object (stringFields (args.envPairs getenv) .nil)) := by
  obtain ⟨username, password, jobnetid, startTime, deterrence, envVariables⟩ := args
  cases startTime <;> cases envVariables <;> exact ⟨rfl, rfl, rfl⟩

/-! ## The whole way -/

theorem cut_short {t : Text} (h : t.length < zbxMaxStringLen) : cut t = t :=
  List.take_of_length_le (Nat.le_pred_of_lt h)

/-- The pairs of the server's loop. -/
theorem fillEnv_envPairs (h : args.Fits getenv) {ms : List Member}
    (hs : Says (stringFields (args.envPairs getenv) .nil) ms) (rest : Text) :
    (fillEnv (opened ms rest)).pairs = (args.envPairs getenv).map fun v => (v.1, cut v.2) := by
  have hnamed : (stringFields (args.envPairs getenv) .nil).Named :=
    stringFields_named (fun v hv => ⟨(h.names v hv).1, (h.names v hv).2.1⟩) trivial
  have hnames := hs.names hnamed rest
  rw [names_stringFields] at hnames
  have hpairs : (fillEnv (opened ms rest)).pairs =
      ((args.envPairs getenv).map Prod.fst).map (pairOf (opened ms rest)) := by
    rw [fillEnv_pairs, ← hnames, List.map_map]
    rfl
  rw [hpairs, List.map_map]
  refine List.map_congr_left fun v hv => ?_
  obtain ⟨hname, -, hvalue⟩ := h.names v hv
  have hfull : cString v.1 = v.1 := cString_noNul fun b hb h0 => hname (h0 ▸ hb)
  have hlookup : (stringFields (args.envPairs getenv) .nil).lookup v.1 = some (.string (some v.2)) := by
    rw [lookup_stringFields, find_of_once h.once hv]
    rfl
  have hread : cString (v.2.take (zbxMaxStringLen - 1)) = cut v.2 := cString_cut hvalue
  simp only [Function.comp_apply, pairOf, hfull, hs.valueByName hnamed, hlookup, readField, hread]

theorem readHead_fields (h : args.Fits getenv) (hcheck : ∀ t, args.startTime = some t → ymdhmCheck t = true)
    (passed : Text → Bool) {ms : List Member} (hs : Says (args.fields getenv) ms) :
    ∃ ms' rest, Says (args.dataFields getenv) ms' ∧ readHead passed (opened ms []) =
      if args.startTime.any passed then .error "Received message error: [start_time] already passed."
      else .ok (⟨cut args.username, cut args.password, cut args.jobnetid, args.startTime, 0⟩, opened ms' rest) := by
  obtain ⟨husername, hpassword, hjobnetid⟩ := lookup_head args getenv
  have hversion : valueOf (opened ms []) "version" = some (ascii "1") := by
    have hl : (args.fields getenv).lookup (ascii "version") = some (.uint64 1) := rfl
    simp only [valueOf, hs.valueByName h.all, hl, readField]
    rfl
  have hl : (args.fields getenv).lookup (ascii "data") = some (.object (args.dataFields getenv)) := rfl
  obtain ⟨ms', rest, hs', hdata⟩ := hs.openByName h.all [] hl
  obtain ⟨p, hp, hopen⟩ := Option.bind_eq_some_iff.1 hdata
  have hstart : valueOf (opened ms' rest) "start_time" = args.startTime := by
    obtain ⟨hl, -, -⟩ := lookup_options args getenv
    cases ht : args.startTime with
    | none =>
      rw [ht] at hl
      exact valueOf_missing hs' h.data hl
    | some t =>
      rw [ht] at hl
      have hlen : t.length = 12 := by
        have hc := hcheck t ht
        simp only [ymdhmCheck, Bool.and_eq_true, decide_eq_true_eq] at hc
        exact hc.1.1.1.1.1.1.1
      rw [valueOf_cut hs' h.data hl (h.startTime t ht), cut_short (hlen ▸ by decide)]
  have hone : atoi (ascii "1") = 1 := by decide
  refine ⟨ms', rest, hs', ?_⟩
  simp only [readHead, hversion, required, Option.elim_some, Except.bind, hone, ne_eq, not_true_eq_false, if_false,
    hp, hopen, valueOf_cut hs' h.data husername h.username, valueOf_cut hs' h.data hpassword h.password,
    valueOf_cut hs' h.data hjobnetid h.jobnetid, hstart]

theorem readEnv_fields (h : args.Fits getenv) {ms : List Member} (hs : Says (args.dataFields getenv) ms)
    (rest : Text) :
    ∃ f, readEnv (opened ms rest) = .ok f ∧ f.pairs = ((args.envPairs getenv).map fun v => (v.1, cut v.2)) ∧
      ∀ w ∈ f.writes, w.2 < arraySize := by
  obtain ⟨-, -, hl⟩ := lookup_options args getenv
  cases henv : args.envVariables with
  | none =>
    rw [henv, Option.map_none] at hl
    have hnone := (hs.pairByName h.data rest (ascii "env")).1 hl
    refine ⟨⟨0, [], []⟩, by simp only [readEnv, hnone], ?_, by simp⟩
    simp [ExecArgs.envPairs, henv]
  | some names =>
    rw [henv, Option.map_some] at hl
    obtain ⟨ms', t, hs', hopened⟩ := hs.openByName h.data rest hl
    obtain ⟨p, hp, hopen⟩ := Option.bind_eq_some_iff.1 hopened
    have hpairs := fillEnv_envPairs h hs' t
    refine ⟨_, by simp only [readEnv, hp, hopen], hpairs, (fillEnv_bounded _).2 ?_⟩
    rw [hpairs, List.length_map]
    exact h.few

theorem withDeterrence_fields (h : args.Fits getenv) {ms : List Member} (hs : Says (args.dataFields getenv) ms)
    (rest : Text) :
    withDeterrence ⟨cut args.username, cut args.password, cut args.jobnetid, args.startTime, 0⟩ (opened ms rest) =
      args.request := by
  obtain ⟨-, hl, -⟩ := lookup_options args getenv
  unfold withDeterrence ExecArgs.request
  cases ht : args.startTime with
  | none =>
    rw [ht, Option.map_none] at hl
    rw [valueOf_missing hs h.data hl]
    rfl
  | some t =>
    rw [ht, Option.map_some] at hl
    cases hd : args.deterrence with
    | false =>
      rw [hd] at hl
      rw [valueOf_cut hs h.data hl (by decide)]
      rfl
    | true =>
      rw [hd] at hl
      rw [valueOf_cut hs h.data hl (by decide)]
      rfl

/-- The text that json-c prints. -/
theorem processJatrap_fields (h : args.Fits getenv) {ms : List Member} (hs : Says (args.fields getenv) ms)
    {text : Text} (htext : compact false text = object ms) (hlast : text.getLast? = some 0x7d) :
    processJatrap text = .jobnetrun (opened ms []) := by
  have htrim : zbxRtrim (ascii " \r\n") text = text := by
    obtain ⟨t, rfl⟩ := List.getLast?_eq_some_iff.1 hlast
    have hend : (0x7d : UInt8) ∉ ascii " \r\n" := by decide
    simp [zbxRtrim, hend]
  have hl : (args.fields getenv).lookup (ascii "kind") = some (.string (some (ascii "jobnetrun"))) := rfl
  have hkind : valueOf (opened ms []) "kind" = some (ascii "jobnetrun") := valueOf_cut hs h.all hl (by decide)
  have hother : ascii "jobnetrun" ≠ ascii "jobresult" := by decide
  simp only [processJatrap, htrim, zbxJsonOpen_object htext, hkind, if_neg hother, if_true]

/-- `jatrap_kind` leaves the request to `process_jatrap`. -/
theorem jatrapKind_fields {c : JsonC} {text : Text} {request : c.Object}
    (hc : c.Reads text (args.fields getenv) request) : jatrapKind c request = none := by
  have hget : ∀ name, (args.fields getenv).lookup name ≠ none → (c.get request name).isNone = false := fun name hname =>
    Option.isNone_eq_false_iff.2 (Option.ne_none_iff_isSome.1 (hc.found name hname))
  have hdata := hget (ascii "data") (fun h => by cases h)
  have hversion := hget (ascii "version") (fun h => by cases h)
  have hl : (args.fields getenv).lookup (ascii "kind") = some (.string (some (ascii "jobnetrun"))) := rfl
  have hother : ascii "jobnetrun" ∉ [ascii "jobresult", ascii "job.release", ascii "job.logput"] := by decide
  cases hk : c.get request (ascii "kind") with
  | none => simp [jatrapKind, hk]
  | some jp =>
    simp only [jatrapKind, hdata, hversion, hk, Option.bind_some, hc.string _ _ jp hl hk, if_neg hother, ite_self]

end

/-- The text with the white space of json-c. -/
def spaced (inString : Bool) : Text → Text
  | [] => []
  | b :: p =>
    if b = 0x5c then
      match p with
      | [] => [0x5c]
      | c :: p => 0x5c :: c :: spaced inString p
    else if b = 0x22 then 0x22 :: spaced (!inString) p
    else if inString then b :: spaced inString p
    else if isWhite b then spaced inString p
    else if b = 0x7b || b = 0x3a || b = 0x2c then b :: 0x20 :: spaced inString p
    else if b = 0x7d then 0x20 :: b :: spaced inString p
    else b :: spaced inString p

/-- One byte outside of an escape. -/
def spacedByte (inString : Bool) (b : UInt8) : Text :=
  if inString then [b]
  else if isWhite b then []
  else if b = 0x7b || b = 0x3a || b = 0x2c then [b, 0x20]
  else if b = 0x7d then [0x20, b]
  else [b]

theorem spaced_cons {b : UInt8} (hslash : b ≠ 0x5c) (inString : Bool) (p : Text) :
    spaced inString (b :: p) = spacedByte (inString || b = 0x22) b ++ spaced (inString ^^ b = 0x22) p := by
  rw [spaced.eq_def]
  by_cases hquote : b = 0x22
  · simp [hquote, spacedByte]
  · simp only [if_neg hslash, if_neg hquote, spacedByte, decide_eq_false hquote, Bool.or_false, Bool.xor_false]
    split
    · rfl
    · split
      · rfl
      · split
        · rfl
        · split <;> rfl

theorem compact_cons {b : UInt8} (hslash : b ≠ 0x5c) (inString : Bool) (p : Text) :
    compact inString (b :: p) =
      (if inString || b = 0x22 || !isWhite b then [b] else []) ++ compact (inString ^^ b = 0x22) p := by
  rw [compact.eq_def]
  by_cases hquote : b = 0x22
  · simp [hquote]
  · simp only [if_neg hslash, if_neg hquote, decide_eq_false hquote, Bool.or_false, Bool.xor_false]
    split <;> rfl

theorem compact_spacedByte {b : UInt8} (hslash : b ≠ 0x5c) (inString : Bool) (p : Text) :
    compact inString (spacedByte (inString || b = 0x22) b ++ p) =
      (if inString || b = 0x22 || !isWhite b then [b] else []) ++ compact (inString ^^ b = 0x22) p := by
  have hwhite : ∀ p, compact false (0x20 :: p) = compact false p := fun p => compact_white rfl p
  cases hout : inString || b = 0x22 with
  | true => simp [spacedByte, compact_cons hslash, hout]
  | false =>
    obtain ⟨hin, hquote⟩ : inString = false ∧ ¬ b = 0x22 := by simpa using hout
    simp only [spacedByte, hin, hquote, if_false, Bool.false_eq_true]
    split
    · rename_i hb
      simp [hb]
    · rename_i hb
      split
      · simp [compact_cons hslash, hwhite, hb, hquote]
      · split
        · simp [compact_cons hslash, hwhite, hb, hquote]
        · simp [compact_cons hslash, hb, hquote]

theorem compact_spaced (inString : Bool) (t : Text) : compact inString (spaced inString t) = compact inString t := by
  induction t using List.twoStepInduction generalizing inString with
  | nil => rfl
  | singleton b =>
    by_cases hslash : b = 0x5c
    · rw [hslash]
      rfl
    · rw [spaced_cons hslash, compact_spacedByte hslash, compact_cons hslash]
      rfl
  | cons_cons b c p ihp ihcp =>
    by_cases hslash : b = 0x5c
    · simp only [hslash, spaced, compact, if_true, ihp]
    · rw [spaced_cons hslash, compact_spacedByte hslash, compact_cons hslash, ihcp]

theorem spaced_getLast (inString : Bool) (t : Text) : ∃ u, spaced inString (t ++ [0x7d]) = u ++ [0x7d] := by
  induction t using List.twoStepInduction generalizing inString with
  | nil =>
    cases inString
    · exact ⟨[0x20], rfl⟩
    · exact ⟨[], rfl⟩
  | singleton b =>
    by_cases hslash : b = 0x5c
    · exact ⟨[0x5c], by rw [hslash]; rfl⟩
    · cases h : inString ^^ decide (b = 0x22)
      · refine ⟨spacedByte (inString || b = 0x22) b ++ [0x20], ?_⟩
        rw [List.cons_append, spaced_cons hslash, h]
        simp [spaced, isWhite]
      · refine ⟨spacedByte (inString || b = 0x22) b, ?_⟩
        rw [List.cons_append, spaced_cons hslash, h]
        simp [spaced]
  | cons_cons b c p ihp ihcp =>
    by_cases hslash : b = 0x5c
    · obtain ⟨u, hu⟩ := ihp inString
      exact ⟨0x5c :: c :: u, by simp [hslash, spaced, hu]⟩
    · obtain ⟨u, hu⟩ := ihcp c (inString ^^ b = 0x22)
      rw [List.cons_append] at hu
      exact ⟨spacedByte (inString || b = 0x22) b ++ u, by
        rw [List.cons_append, List.cons_append, spaced_cons hslash, hu, List.append_assoc]⟩

/-- The reader of `zbxjson` in the place of json-c. -/
def plainC : JsonC where
  Object := Text
  parse := some
  print := spaced false
  get := fun t name => (zbxJsonOpen t).bind fun jp => zbxJsonPairByName jp name
  getString := fun t => (zbxJsonDecodevalue t [] (t.length + 1)).2

theorem saysValue_length {value : Text} {w : Value} (hw : SaysValue (.string (some value)) w) (t : Text) :
    value.length ≤ (w.source ++ t).length := by
  cases hw with
  | @string _ s hs =>
    have hsource : ∀ s : List Item, s.length ≤ (source s).length := by
      intro s
      induction s with
      | nil => exact Nat.le_refl 0
      | cons i s ih =>
        have hi : 1 ≤ i.source.length := by cases i <;> simp [Item.source]
        have hcons : source (i :: s) = i.source ++ source s := rfl
        rw [hcons, List.length_append, List.length_cons]
        omega
    have hs' := hsource s
    rw [← hs, decoded, List.length_map, Value.source, quoted_append, List.length_cons, List.length_append]
    omega

theorem plainC_lawful : plainC.Lawful := by
  intro allocate fields hnamed _ _
  have hs := says_members fields
  have hopen := zbxJsonOpen_zbxJson allocate fields
  have hget : ∀ name, plainC.get (zbxJson allocate fields) name = zbxJsonPairByName (opened fields.members []) name := by
    intro name
    change (zbxJsonOpen (zbxJson allocate fields)).bind _ = _
    rw [hopen, Option.bind_some]
  refine ⟨zbxJson allocate fields, rfl, ⟨fields.members, hs, ?_, ?_⟩, fun name hl => ?_, fun name hl => ?_,
    fun name value jp hl hjp => ?_⟩
  · exact (compact_spaced _ _).trans (compact_zbxJson allocate fields)
  · obtain ⟨u, hu⟩ := spaced_getLast false (0x7b :: fields.pretty 1 false)
    have htext : zbxJson allocate fields = 0x7b :: fields.pretty 1 false ++ [0x7d] := by
      rw [zbxJson_eq]
      rfl
    change (spaced false (zbxJson allocate fields)).getLast? = _
    rw [htext, hu, List.getLast?_concat]
  · rw [hget]
    exact (hs.pairByName hnamed [] name).1 hl
  · obtain ⟨v, hv⟩ := Option.ne_none_iff_exists'.1 hl
    obtain ⟨w, t, -, -, hp⟩ := (hs.pairByName hnamed [] name).2 v hv
    rw [hget, hp]
    exact Option.some_ne_none _
  · obtain ⟨w, t, hw, ht, hp⟩ := (hs.pairByName hnamed [] name).2 _ hl
    obtain rfl : w.source ++ t = jp := Option.some.inj (hp.symm.trans ((hget name).symm.trans hjp))
    have hread := decodevalue_field hw ht [] ((w.source ++ t).length + 1)
    change (zbxJsonDecodevalue (w.source ++ t) [] _).2 = value
    rw [hread]
    exact List.take_of_length_le (saysValue_length hw t)

/-- A user with a quote in the password, a start time and two variables. -/
def sampleArgs : ExecArgs where
  username := ascii "admin"
  password := ascii "a\"/b"
  jobnetid := ascii "NET"
  startTime := some (ascii "202402292359")
  deterrence := true
  envVariables := some (ascii "A,B")

def sampleEnv : Text → Option Text
  | [0x41] => some (ascii "1")
  | [0x42] => some []
  | _ => none

theorem sampleArgs_fits : sampleArgs.Fits sampleEnv := by
  refine ⟨by decide, by decide, by decide, fun t ht => ?_, by decide, by decide, by decide⟩
  obtain rfl := Option.some.inj ht
  decide

theorem sampleArgs_sent : (jobargExec sampleEnv sampleArgs).isSome = true := rfl

open Timestamp (Zone ValidStamp number field field_eq time_eq jaStr2timestamp tStr)

/-- `FAIL` of `time_passed_check`. mirrors src/jobarg_server/jatrapper/jatrapper.c:249-259 -/
def timePassed (zone : Zone) (beyond : Int → Int) (now : Int) (starttime : Text) : Bool :=
  (jaStr2timestamp zone beyond starttime).time - now < 60

section
variable {t : Text}

theorem isNumber_digits (hd : ∀ b ∈ t, Sql.isDigit b = true) (hne : t ≠ []) : isNumber t = true := by
  have hnl : ∀ b ∈ t, (b == 0x0a) = false := by
    intro b hb
    refine Bool.eq_false_iff.2 fun h => ?_
    have hdig := hd b hb
    rw [beq_iff_eq.1 h] at hdig
    cases hdig
  have hline : t.splitOn 0x0a = [t] := List.splitOnP_eq_singleton hnl
  obtain ⟨b, rest, rfl⟩ := List.exists_cons_of_ne_nil hne
  have hb : isDigit b = true := hd b List.mem_cons_self
  have hminus : b ≠ 0x2d := by
    intro h
    rw [h] at hb
    cases hb
  have hdrop : (b :: rest).dropWhile isDigit = [] := List.dropWhile_eq_nil_iff.2 hd
  simp [isNumber, hline, isNumberLine, hminus, hdrop, hb]

theorem number_take {k m : Nat} (h : k + 2 ≤ m) : number (t.take m) k 2 = number t k 2 := by
  have hmin : min 2 (m - k) = 2 := by omega
  rw [number, number, List.drop_take, List.take_take, hmin]

theorem number_append {k n : Nat} (h : k + n ≤ t.length) (u : Text) : number (t ++ u) k n = number t k n := by
  rw [number, number, List.drop_append_of_le_length (by omega),
    List.take_append_of_le_length (by rw [List.length_drop]; omega)]

/-- The leap years of the check are those of the calendar. -/
theorem tmod_leap (year : Nat) :
    ((Int.tmod year 4 = 0 && (Int.tmod year 100 ≠ 0 || Int.tmod year 400 = 0)) : Bool) = Gregorian.isLeap year := by
  have hmod : ∀ k : Int, Int.tmod year k = (year : Int) % k := fun k => Int.tmod_eq_emod_of_nonneg (Int.natCast_nonneg year)
  rw [hmod, hmod, hmod, Gregorian.isLeap, Bool.eq_iff_iff]
  simp only [Bool.and_eq_true, Bool.or_eq_true, decide_eq_true_eq]
  omega

/-- The last day of the check is that of the calendar. -/
theorem day_checked {year mon day : Nat} (hmon : 1 ≤ mon ∧ mon ≤ 12)
    (hday : 1 ≤ day ∧ day ≤ Gregorian.monthLen (12 * year + (mon - 1))) :
    day ≤ 31 ∧ ¬ ((mon = 4 ∨ mon = 6 ∨ mon = 9 ∨ mon = 11) ∧ day = 31) ∧
      ¬ (mon = 2 ∧ (if Gregorian.isLeap year then 29 < day else 28 < day)) := by
  have hquot : (12 * year + (mon - 1)) / 12 = year := by omega
  have hrem : (12 * year + (mon - 1)) % 12 = mon - 1 := by omega
  obtain ⟨-, hday⟩ := hday
  rw [Gregorian.monthLen, hquot, hrem] at hday
  obtain ⟨hlo, hhi⟩ := hmon
  cases hl : Gregorian.isLeap year <;> interval_cases mon <;> simp [hl] at hday ⊢ <;> omega

/-- A valid time is sent. -/
theorem ymdhmCheck_of_valid (hlen : t.length = 12) (hd : ∀ b ∈ t, Sql.isDigit b = true)
    (hv : ValidStamp (t ++ ascii "00")) : ymdhmCheck t = true := by
  have hcut : ∀ b ∈ t.take 11, Sql.isDigit b = true := fun b hb => hd b (List.mem_of_mem_take hb)
  have hpair : ∀ k, k + 2 ≤ 11 → pairAt (t.take 11) k = number t k 2 := by
    intro k hk
    have hfield : pairAt (t.take 11) k = field (t.take 11) k 2 := rfl
    rw [hfield, field_eq hcut (by decide), number_take hk]
  have hyear : (atoi (t.take 4)).toInt = number t 0 4 := field_eq (k := 0) hd (Nat.le_refl 4)
  have hminute : 0 ≤ pairAt (t.take 11) 10 ∧ pairAt (t.take 11) 10 ≤ 59 := by
    have hfield : pairAt (t.take 11) 10 = field (t.take 11) 10 2 := rfl
    have hone : (((t.take 11).drop 10).take 2).length ≤ 1 := by simp
    have hlt : number (t.take 11) 10 2 < 10 ^ 1 :=
      (Sql.natVal_lt fun b hb => hcut b (List.mem_of_mem_drop (List.mem_of_mem_take hb))).trans_le
        (Nat.pow_le_pow_right (by decide) hone)
    rw [hfield, field_eq hcut (by decide)]
    omega
  obtain ⟨-, hmon, hday, hhour, -, -⟩ := hv
  simp only [number_append (show 0 + 4 ≤ t.length by omega), number_append (show 4 + 2 ≤ t.length by omega),
    number_append (show 6 + 2 ≤ t.length by omega), number_append (show 8 + 2 ≤ t.length by omega)] at hmon hday hhour
  have hnumber := isNumber_digits hd (List.length_pos_iff.1 (by omega))
  simp only [ymdhmCheck, hlen, hnumber, hpair 4 (by decide), hpair 6 (by decide), hpair 8 (by decide), hyear]
  generalize number t 0 4 = year, number t 4 2 = mon, number t 6 2 = day, number t 8 2 = hour,
    pairAt (t.take 11) 10 = minute at *
  obtain ⟨h31, h30, hfeb⟩ := day_checked hmon hday
  have hleap := tmod_leap year
  simp only [hleap]
  cases hl : Gregorian.isLeap year
  · simp [hl] at hfeb ⊢
    omega
  · simp [hl] at hfeb ⊢
    omega

/-- Between the two checks the times that pass are the valid ones that are a
minute ahead: the client sends every valid time, and what it lets through
besides (its last byte of the minutes is not looked at) the server refuses. -/
theorem start_time_agrees (zone : Zone) (beyond : Int → Int) {now : Int} (hnow : 0 ≤ now) (hlen : t.length = 12)
    (hd : ∀ b ∈ t, Sql.isDigit b = true) :
    (ymdhmCheck t = true ∧ timePassed zone beyond now t = false) ↔
      ValidStamp (t ++ ascii "00") ∧ 60 ≤ zone.mktime ⟨number t 0 4 - 1900, number t 4 2 - 1, number t 6 2, number t 8 2,
        number t 10 2, 0⟩ - now := by
  have hstr : tStr t = some (t ++ ascii "00") := by
    rw [tStr, hlen]
    rfl
  obtain ⟨hvalid, hinvalid⟩ := time_eq zone beyond hstr hd
  have hsec : number (t ++ ascii "00") 12 2 = 0 := by
    have hdrop : (t ++ ascii "00").drop 12 = ascii "00" := List.drop_left' hlen
    rw [number, hdrop]
    rfl
  simp only [number_append (show 0 + 4 ≤ t.length by omega), number_append (show 4 + 2 ≤ t.length by omega),
    number_append (show 6 + 2 ≤ t.length by omega), number_append (show 8 + 2 ≤ t.length by omega),
    number_append (show 10 + 2 ≤ t.length by omega), hsec] at hvalid
  simp only [timePassed, decide_eq_false_iff_not, Int.not_lt]
  by_cases hv : ValidStamp (t ++ ascii "00")
  · rw [hvalid hv]
    exact ⟨fun h => ⟨hv, h.2⟩, fun h => ⟨ymdhmCheck_of_valid hlen hd hv, h.2⟩⟩
  · rw [hinvalid hv]
    exact ⟨fun h => by omega, fun h => absurd h.1 hv⟩

end

theorem start_time_agrees_leap_day : ymdhmCheck (ascii "202402292359") = true ∧
    timePassed Timestamp.utc (fun _ => 0) 0 (ascii "202402292359") = false :=
  (start_time_agrees Timestamp.utc (fun _ => 0) (Int.le_refl 0) rfl (List.all_eq_true.1 rfl)).2
    ⟨⟨by decide, by decide, by decide, by decide, by decide, by decide⟩, by decide⟩

/-- 65 minutes are sent and refused. -/
example : ymdhmCheck (ascii "202402292365") = true ∧
    timePassed Timestamp.utc (fun _ => 0) 0 (ascii "202402292365") = true := ⟨rfl, rfl⟩

end JobArranger.ExecClient
