import Mathlib.Algebra.GroupWithZero.Nat
import JobArranger.Core.Shell
import JobArranger.L1Data.Replace

/-!
# Notices to Zabbix (`jamsgsnd/jamsgsnd.c`)

`message_send` builds a `zabbix_sender` command for every message that is due
and hands it to `system`. The four settings and the message are pasted between
single quotes, the host name goes through a buffer of `JA_MAX_DATA_LEN` bytes,
the whole through one of twice that.

* `run_options`: options in quotes are read as they are.
* `noQuotes_of_words`: when the shell reads them as they are, there is no
  single quote in them. The command has just as many bytes besides single
  quotes as the words and the blanks between them need, and a single quote in
  a word takes at least one more.
* `delivered_iff`: which rows are delivered as the message and nothing else.
-/
namespace JobArranger.Notice

open Shell Replace

/-! ## The source -/

/-- What `message_send` reads of `ja_zbxsnd_info_t` for the command. -/
structure ZbxsndInfo where
  zabbixIp : Text
  zabbixPort : Text
  zabbixHost : Text
  itemKey : Text
  sender : Text

/-- What it reads of a row of `ja_send_message_table`. -/
structure MessageRow where
  messageDate : Text
  messageType : Int
  userName : Option Text
  hostName : Option Text
  jobnetId : Option Text
  jobIdFull : Option Text
  logMessageId : Option Text
  logMessage : Option Text

def msgType (messageType : Int) : Text :=
  if messageType = 0 then ascii "INFO"
  else if messageType = 1 then ascii "CRIT"
  else if messageType = 2 then ascii "ERROR"
  else if messageType = 3 then ascii "WARN"
  else ascii "DEBUG"

/-- `now_time[80]`: `mktime` and `strftime`, or the date as it is when
`mktime` fails. -/
def nowTime (format : Text → Option Text) (messageDate : Text) : Text := (format messageDate).getD (messageDate.take 79)

/-- `host_name` with room for every name. -/
def hostText (row : MessageRow) : Text :=
  match row.hostName with
  | some h => if h = [] then ascii "HOST=JAZServer " else ascii "HOST=" ++ h
  | none => ascii "HOST=JAZServer "

/-- `host_name[JA_MAX_DATA_LEN]` -/
def hostName (row : MessageRow) : Text := (hostText row).take (maxDataLen - 1)

/-- `[%s] [%s] [%s] %s (USER NAME=%s %s JOBNET=%s JOB=%s)` -/
def message (format : Text → Option Text) (row : MessageRow) (host : Text) : Text :=
  ascii "[" ++ nowTime format row.messageDate ++ ascii "] [" ++ msgType row.messageType ++ ascii "] [" ++
    row.logMessageId.getD [] ++ ascii "] " ++ row.logMessage.getD [] ++ ascii " (USER NAME=" ++ row.userName.getD [] ++
    ascii " " ++ host ++ ascii " JOBNET=" ++ row.jobnetId.getD [] ++ ascii " JOB=" ++ row.jobIdFull.getD [] ++ ascii ")"

/-- The command before it is put into the buffer. -/
def fullCmd (z : ZbxsndInfo) (text : Text) : Text :=
  z.sender ++ ascii " -z '" ++ z.zabbixIp ++ ascii "' -p '" ++ z.zabbixPort ++ ascii "' -s '" ++ z.zabbixHost ++
    ascii "' -k '" ++ z.itemKey ++ ascii "' -o '" ++ text ++ ascii "'"

/-- `cmd[JA_MAX_DATA_LEN * 2]`
mirrors src/jobarg_server/jamsgsnd/jamsgsnd.c:343-484 -/
def cmd (format : Text → Option Text) (z : ZbxsndInfo) (row : MessageRow) : Text :=
  (fullCmd z (message format row (hostName row))).take (2 * maxDataLen - 1)

/-! ## Options in quotes -/

/-- An option letter and its value. -/
abbrev Opt := UInt8 × Text

def optText (o : Opt) : Text := [0x20, 0x2d, o.1, 0x20] ++ ([0x27] ++ o.2 ++ [0x27])

def optWords (o : Opt) : List Word := [literal [0x2d, o.1], literal o.2]

def NoQuote (v : Text) : Prop := ∀ b ∈ v, sym b ≠ .single

/-- The options of a command that sends `text`. -/
def options (z : ZbxsndInfo) (text : Text) : List Opt :=
  [(0x7a, z.zabbixIp), (0x70, z.zabbixPort), (0x73, z.zabbixHost), (0x6b, z.itemKey), (0x6f, text)]

theorem fullCmd_eq (z : ZbxsndInfo) (text : Text) : fullCmd z text = z.sender ++ (options z text).flatMap optText := by
  have hz : ascii " -z '" = [0x20, 0x2d, 0x7a, 0x20, 0x27] := rfl
  have hp : ascii "' -p '" = [0x27, 0x20, 0x2d, 0x70, 0x20, 0x27] := rfl
  have hs : ascii "' -s '" = [0x27, 0x20, 0x2d, 0x73, 0x20, 0x27] := rfl
  have hk : ascii "' -k '" = [0x27, 0x20, 0x2d, 0x6b, 0x20, 0x27] := rfl
  have ho : ascii "' -o '" = [0x27, 0x20, 0x2d, 0x6f, 0x20, 0x27] := rfl
  have hend : ascii "'" = [0x27] := rfl
  simp [fullCmd, options, optText, hz, hp, hs, hk, ho, hend]

/-- Outside quotes, between or at the end of words. -/
def Between (r : Reader) : Prop := r.stack = [] ∧ (r.mode = .plain ∨ r.mode = .dollar)

theorem run_blank {r : Reader} (h : Between r) (w : Words) :
    run r w [0x20] = some (⟨[], .plain, false⟩, ⟨w.all, none⟩) := by
  obtain ⟨stack, mode, inWord⟩ := r
  obtain ⟨hs, hm⟩ := h
  simp only at hs hm
  subst hs
  rcases hm with rfl | rfl
  all_goals rfl

/-- An option and the blank behind it. -/
theorem run_flag {r : Reader} (h : Between r) {c : UInt8} (hc : sym c = .ord) (w : Words) :
    run r w [0x20, 0x2d, c, 0x20] = some (⟨[], .plain, false⟩, ⟨w.all ++ [literal [0x2d, c]], none⟩) := by
  have hsplit : ([0x20, 0x2d, c, 0x20] : Text) = [0x20] ++ ([0x2d, c] ++ [0x20]) := rfl
  have hminus : sym 0x2d = .ord := rfl
  have hflag : run ⟨[], .plain, false⟩ ⟨w.all, none⟩ [0x2d, c] =
      some (⟨[], .plain, true⟩, ⟨w.all, some (literal [0x2d, c])⟩) := by
    simp [run, Reader.active, Reader.next, Reader.read, Reader.readPlain, Reader.put, Reader.inBrace, Words.add, literal,
      hminus, hc]
  rw [hsplit, run_append, run_blank h, Option.bind_some, run_append, hflag, Option.bind_some,
    run_blank ⟨rfl, .inl rfl⟩]
  rfl

theorem run_option {r : Reader} (h : Between r) {o : Opt} (hc : sym o.1 = .ord) (hv : NoQuote o.2) (w : Words) :
    ∃ r' w', run r w (optText o) = some (r', w') ∧ Between r' ∧ w'.all = w.all ++ optWords o := by
  refine ⟨⟨[], .plain, true⟩, ⟨w.all ++ [literal [0x2d, o.1]], some (literal o.2)⟩, ?_, ⟨rfl, .inl rfl⟩, ?_⟩
  · rw [optText, run_append, run_flag h hc, Option.bind_some, run_quoted hv]
  · simp [Words.all, optWords]

theorem run_options {opts : List Opt} : ∀ {r : Reader} {w : Words}, Between r →
    (∀ o ∈ opts, sym o.1 = .ord ∧ NoQuote o.2) →
    ∃ r' w', run r w (opts.flatMap optText) = some (r', w') ∧ Between r' ∧ w'.all = w.all ++ opts.flatMap optWords := by
  induction opts with
  | nil => exact fun {r w} h _ => ⟨r, w, rfl, h, by simp⟩
  | cons o opts ih =>
    intro r w h ho
    obtain ⟨hc, hv⟩ := ho o List.mem_cons_self
    obtain ⟨r₁, w₁, hrun, hbet, hall⟩ := run_option h hc hv w
    obtain ⟨r₂, w₂, hrun', hbet', hall'⟩ := ih (w := w₁) hbet fun o' h' => ho o' (List.mem_cons_of_mem _ h')
    refine ⟨r₂, w₂, ?_, hbet', ?_⟩
    · rw [List.flatMap_cons, run_append, hrun, Option.bind_some, hrun']
    · rw [hall', hall, List.flatMap_cons, List.append_assoc]

/-! ## Counting the command -/

/-- The bytes that are not single quotes. -/
def others (t : Text) : Nat := t.countP fun b => sym b ≠ .single

theorem others_append (s t : Text) : others (s ++ t) = others s + others t := List.countP_append

theorem others_le_length (t : Text) : others t ≤ t.length := List.countP_le_length

theorem others_eq_length {t : Text} : others t = t.length ↔ NoQuote t := by
  rw [others, List.countP_eq_length]
  simp [NoQuote]

/-- The words the options of this list should give. -/
def heldBy (opts : List Opt) : Nat := (opts.map fun o => 2 + others o.2).sum

theorem others_options {opts : List Opt} (h : ∀ o ∈ opts, sym o.1 = .ord) :
    others (opts.flatMap optText) = heldBy opts + 2 * opts.length := by
  induction opts with
  | nil => rfl
  | cons o opts ih =>
    have hc : sym o.1 ≠ .single := by simp [h o List.mem_cons_self]
    have hone : others (optText o) = 4 + others o.2 := by
      have hflag : others [0x20, 0x2d, o.1, 0x20] = 4 := by
        have hblank : sym 0x20 = .blank := rfl
        have hminus : sym 0x2d = .ord := rfl
        simp [others, hc, hblank, hminus]
      have hquote : others [0x27] = 0 := rfl
      rw [optText, others_append, others_append, others_append, hflag, hquote]
      omega
    rw [List.flatMap_cons, others_append, hone, ih fun o' h' => h o' (List.mem_cons_of_mem _ h')]
    simp only [heldBy, List.map_cons, List.sum_cons, List.length_cons]
    omega

theorem countP_literal (p : UInt8 → Bool) (v : Text) : (literal v).countP (fun q => p q.1) = v.countP p := by
  rw [literal, List.countP_map]
  rfl

theorem held_optWords {opts : List Opt} (h : ∀ o ∈ opts, sym o.1 = .ord) :
    (opts.flatMap optWords).flatten.countP (fun p => sym p.1 ≠ .single) = heldBy opts := by
  induction opts with
  | nil => rfl
  | cons o opts ih =>
    have hc : sym o.1 ≠ .single := by simp [h o List.mem_cons_self]
    have hminus : sym 0x2d = .ord := rfl
    rw [List.flatMap_cons, List.flatten_append, List.countP_append, ih fun o' h' => h o' (List.mem_cons_of_mem _ h')]
    simp only [optWords, List.flatten_cons, List.flatten_nil, List.append_nil, List.countP_append,
      countP_literal (fun b => decide (sym b ≠ .single)), heldBy, List.map_cons, List.sum_cons, others]
    simp [hc, hminus]

theorem quotes_optWords {opts : List Opt} (h : (opts.flatMap optWords).flatten.countP (fun p => sym p.1 = .single) = 0) :
    ∀ o ∈ opts, NoQuote o.2 := by
  intro o ho b hb hsym
  rw [List.countP_eq_zero] at h
  refine h (b, false) ?_ (by simpa using hsym)
  refine List.mem_flatten.2 ⟨literal o.2, List.mem_flatMap.2 ⟨o, ho, by simp [optWords]⟩, ?_⟩
  exact List.mem_map.2 ⟨b, hb, rfl⟩

theorem length_optWords (opts : List Opt) : (opts.flatMap optWords).length = 2 * opts.length := by
  induction opts with
  | nil => rfl
  | cons o opts ih =>
    rw [List.flatMap_cons, List.length_append, ih]
    simp [optWords]
    omega

/-- The sender is one word, and no comment starts behind it. -/
structure NamesCommand (sender : Text) (name : Word) (r : Reader) (w : Words) : Prop where
  run : run Shell.start ⟨[], none⟩ sender = some (r, w)
  between : Between r
  all : w.all = [name]

/-- Read behind the sender, a text that gives the words of some options has at
least as many bytes as they need; when it has no more, none of their values
holds a single quote. -/
theorem noQuotes_of_words {t : Text} {name : Word} {r r' : Reader} {w w' : Words} {opts : List Opt}
    (hr : Between r) (hw : w.all = [name]) (hrun : run r w (0x20 :: t) = some (r', w'))
    (hall : w'.all = name :: opts.flatMap optWords) (hc : ∀ o ∈ opts, sym o.1 = .ord)
    (hlen : others t + 1 ≤ heldBy opts + 2 * opts.length) : (∀ o ∈ opts, NoQuote o.2) ∧
      heldBy opts + 2 * opts.length = others t + 1 := by
  have hblank : run r w ([0x20] ++ t) = run ⟨[], .plain, false⟩ ⟨[name], none⟩ t := by
    rw [run_append, run_blank hr, hw, Option.bind_some]
  have hrun' : run ⟨[], .plain, false⟩ ⟨[name], none⟩ t = some (r', w') := hblank.symm.trans hrun
  obtain ⟨s, heq, -, hquote⟩ := run_slack (s := 0) (by simp [Reader.paid]) hrun'
  have hheld : held w' = name.countP (fun p => sym p.1 ≠ .single) + heldBy opts := by
    rw [held, hall, List.flatten_cons, List.countP_append, held_optWords hc]
  have hgaps : 1 + 2 * opts.length ≤ gaps w' := by
    rw [gaps, hall, List.length_cons, length_optWords]
    omega
  have hheld₀ : held ⟨[name], none⟩ = name.countP (fun p => sym p.1 ≠ .single) := by simp [held, Words.all]
  have hgaps₀ : gaps ⟨[name], none⟩ = 2 := rfl
  rw [hheld, hheld₀, hgaps₀] at heq
  have heq' : others t + 2 = heldBy opts + gaps w' + s := by
    rw [others]
    omega
  refine ⟨quotes_optWords ?_, by omega⟩
  -- nothing is lost, so that no quote is held that was not there before
  by_contra hpos
  have hq₀ : quotes ⟨[name], none⟩ = name.countP (fun p => sym p.1 = .single) := by simp [quotes, Words.all]
  have hq : quotes w' = name.countP (fun p => sym p.1 = .single) +
      (opts.flatMap optWords).flatten.countP (fun p => sym p.1 = .single) := by
    rw [quotes, hall, List.flatten_cons, List.countP_append]
  have hone : 1 ≤ s := hquote (by omega)
  omega

/-- Cut off anywhere, a command with quote-free values loses its last word or
leaves it open. -/
theorem words_cut {sender : Text} {name : Word} {r : Reader} {w : Words} (hs : NamesCommand sender name r w)
    {init : List Opt} {o : Opt} (ho : ∀ o' ∈ init ++ [o], sym o'.1 = .ord ∧ NoQuote o'.2) {m : Nat}
    (hm : m < (sender ++ (init ++ [o]).flatMap optText).length) :
    words ((sender ++ (init ++ [o]).flatMap optText).take m) ≠ some (name :: (init ++ [o]).flatMap optWords) := by
  intro hwords
  obtain ⟨r₁, w₁, hinit, hbet, hall⟩ := run_options (w := w) hs.between fun o' h' => ho o' (List.mem_append_left _ h')
  obtain ⟨hc, hv⟩ := ho o (by simp)
  have hflag := run_flag hbet hc w₁
  -- what comes before the quoted value
  obtain ⟨before, hbefore⟩ : ∃ g, g = sender ++ init.flatMap optText ++ [0x20, 0x2d, o.1, 0x20] := ⟨_, rfl⟩
  have hrun : run Shell.start ⟨[], none⟩ before = some (⟨[], .plain, false⟩, ⟨w₁.all ++ [literal [0x2d, o.1]], none⟩) := by
    rw [hbefore, run_append, run_append, hs.run, Option.bind_some, hinit, Option.bind_some, hflag]
  have hfull : sender ++ (init ++ [o]).flatMap optText = before ++ ([0x27] ++ o.2 ++ [0x27]) := by
    simp [hbefore, optText]
  rw [hfull] at hwords hm
  simp only [words, Option.bind_eq_some_iff] at hwords
  obtain ⟨⟨r₂, w₂⟩, hrun₂, hend⟩ := hwords
  split at hend
  · rename_i hclosed
    injection hend with hend
    by_cases hle : m ≤ before.length
    · rw [List.take_append_of_le_length hle] at hrun₂
      have hsplit : run Shell.start ⟨[], none⟩ (before.take m ++ before.drop m) =
          some (⟨[], .plain, false⟩, ⟨w₁.all ++ [literal [0x2d, o.1]], none⟩) := by rw [List.take_append_drop, hrun]
      rw [run_append, hrun₂, Option.bind_some] at hsplit
      have hcount : (⟨w₁.all ++ [literal [0x2d, o.1]], none⟩ : Words).all.length = 2 + 2 * init.length := by
        have hinitAll : w₁.all.length = 1 + 2 * init.length := by
          rw [hall, hs.all, List.length_append, length_optWords, List.length_singleton]
        have hnone : (⟨w₁.all ++ [literal [0x2d, o.1]], none⟩ : Words).all = w₁.all ++ [literal [0x2d, o.1]] := by
          simp [Words.all]
        rw [hnone, List.length_append, hinitAll, List.length_singleton]
        omega
      have hmono := length_all_mono hsplit
      rw [hend, hcount, List.length_cons, length_optWords, List.length_append, List.length_singleton] at hmono
      omega
    · have htake : (before ++ ([0x27] ++ o.2 ++ [0x27])).take m = before ++ ([0x27] ++ o.2.take (m - before.length - 1)) := by
        rw [List.take_append, List.take_of_length_le (by omega), List.append_assoc, List.take_append,
          List.take_of_length_le (by simp; omega), List.take_append_of_le_length]
        · rfl
        · simp only [List.length_append, List.length_singleton] at hm ⊢
          omega
      have hopen : run ⟨[], .plain, false⟩ ⟨w₁.all ++ [literal [0x2d, o.1]], none⟩ [0x27] =
          some (⟨[], .single, true⟩, ⟨w₁.all ++ [literal [0x2d, o.1]], some []⟩) := rfl
      rw [htake, run_append, hrun, Option.bind_some, run_append, hopen, Option.bind_some,
        run_single rfl rfl (fun b hb => hv b (List.mem_of_mem_take hb)) rfl] at hrun₂
      injection hrun₂ with hrun₂
      injection hrun₂ with hr₂ _
      rw [← hr₂] at hclosed
      simp [Reader.closed] at hclosed
  · cases hend

/-! ## Delivery -/

/-- The arguments a notice should have. -/
def arguments (z : ZbxsndInfo) (text : Text) : List Word :=
  [literal (ascii "-z"), literal z.zabbixIp, literal (ascii "-p"), literal z.zabbixPort, literal (ascii "-s"),
    literal z.zabbixHost, literal (ascii "-k"), literal z.itemKey, literal (ascii "-o"), literal text]

/-- The shell runs the sender with exactly these arguments, the message whole. -/
def Delivered (format : Text → Option Text) (z : ZbxsndInfo) (row : MessageRow) : Prop :=
  ∃ name, words z.sender = some [name] ∧
    words (cmd format z row) = some (name :: arguments z (message format row (hostText row)))

/-- The sender is one word, nothing that is pasted holds a single quote, and
both buffers are large enough. -/
structure Deliverable (format : Text → Option Text) (z : ZbxsndInfo) (row : MessageRow) : Prop where
  command : ∃ name r w, NamesCommand z.sender name r w
  quotes : ∀ v ∈ [z.zabbixIp, z.zabbixPort, z.zabbixHost, z.itemKey, message format row (hostText row)], NoQuote v
  host : (hostText row).length < maxDataLen
  room : (fullCmd z (message format row (hostText row))).length < 2 * maxDataLen

theorem arguments_eq (z : ZbxsndInfo) (text : Text) : arguments z text = (options z text).flatMap optWords := rfl

theorem options_ord (z : ZbxsndInfo) (text : Text) : ∀ o ∈ options z text, sym o.1 = .ord := by
  intro o ho
  simp only [options, List.mem_cons, List.not_mem_nil, or_false] at ho
  rcases ho with rfl | rfl | rfl | rfl | rfl
  all_goals rfl

theorem options_noQuote {z : ZbxsndInfo} {text : Text} : (∀ o ∈ options z text, NoQuote o.2) ↔
    ∀ v ∈ [z.zabbixIp, z.zabbixPort, z.zabbixHost, z.itemKey, text], NoQuote v := by
  simp [options]

theorem others_message (format : Text → Option Text) (row : MessageRow) (host : Text) :
    others (message format row host) = others (message format row []) + others host := by
  simp only [message, others_append]
  have hnil : others [] = 0 := rfl
  omega

theorem hostName_eq {row : MessageRow} (h : (hostText row).length < maxDataLen) : hostName row = hostText row := by
  rw [hostName, List.take_of_length_le (by omega)]

theorem between_of_closed {r : Reader} (hc : r.closed = true) (hm : r.mode ≠ .comment) : Between r := by
  simp only [Reader.closed, Bool.and_eq_true, decide_eq_true_eq, List.isEmpty_iff] at hc
  refine ⟨hc.1.1, ?_⟩
  cases h : r.mode with
  | plain => exact .inl rfl
  | dollar => exact .inr rfl
  | escape => exact absurd h hc.2
  | single => exact absurd h hc.1.2
  | comment => exact absurd h hm

theorem delivered_of_deliverable {format : Text → Option Text} {z : ZbxsndInfo} {row : MessageRow}
    (h : Deliverable format z row) : Delivered format z row := by
  obtain ⟨name, r, w, hs⟩ := h.command
  have hroom := h.room
  have hopts : ∀ o ∈ options z (message format row (hostText row)), sym o.1 = .ord ∧ NoQuote o.2 := fun o ho =>
    ⟨options_ord z _ o ho, options_noQuote.2 h.quotes o ho⟩
  have hclosed : ∀ {r : Reader}, Between r → r.closed = true := by
    rintro ⟨stack, mode, inWord⟩ ⟨hs, hm⟩
    simp only at hs hm
    rcases hm with rfl | rfl
    all_goals simp [Reader.closed, hs]
  obtain ⟨r', w', hrun, hbet, hall⟩ := run_options (w := w) hs.between hopts
  refine ⟨name, ?_, ?_⟩
  · rw [words, hs.run, Option.bind_some, if_pos (hclosed hs.between), hs.all]
  · rw [cmd, hostName_eq h.host, List.take_of_length_le (by omega), fullCmd_eq, words, run_append, hs.run,
      Option.bind_some, hrun, Option.bind_some, if_pos (hclosed hbet), hall, hs.all, arguments_eq]
    rfl

theorem deliverable_of_delivered {format : Text → Option Text} {z : ZbxsndInfo} {row : MessageRow}
    (h : Delivered format z row) : Deliverable format z row := by
  obtain ⟨name, hsender, hcmd⟩ := h
  simp only [words, Option.bind_eq_some_iff] at hsender
  obtain ⟨⟨r, w⟩, hrun, hone⟩ := hsender
  split at hone
  swap
  · cases hone
  rename_i hclosed
  injection hone with hone
  have hcmd' := hcmd
  simp only [words, Option.bind_eq_some_iff] at hcmd'
  obtain ⟨⟨r', w'⟩, hrun', hend⟩ := hcmd'
  split at hend
  swap
  · cases hend
  injection hend with hend
  -- the command is longer than the sender
  have hlong : z.sender.length < 2 * maxDataLen - 1 := by
    by_contra hle
    have hpre : cmd format z row = z.sender.take (2 * maxDataLen - 1) := by
      rw [cmd, fullCmd_eq, List.take_append_of_le_length (by omega)]
    have hsplit : run Shell.start ⟨[], none⟩ (z.sender.take (2 * maxDataLen - 1) ++ z.sender.drop (2 * maxDataLen - 1)) =
        some (r, w) := by rw [List.take_append_drop, hrun]
    rw [run_append, ← hpre, hrun', Option.bind_some] at hsplit
    have hmono := length_all_mono hsplit
    rw [hend, hone] at hmono
    simp [arguments] at hmono
  obtain ⟨t, ht⟩ : ∃ t, ((options z (message format row (hostName row))).flatMap optText).take
      (2 * maxDataLen - 1 - z.sender.length) = 0x20 :: t := by
    obtain ⟨k, hk⟩ : ∃ k, 2 * maxDataLen - 1 - z.sender.length = k + 1 := ⟨2 * maxDataLen - 1 - z.sender.length - 1, by omega⟩
    rw [hk]
    exact ⟨_, rfl⟩
  have hcmdEq : cmd format z row = z.sender ++ 0x20 :: t := by
    rw [cmd, fullCmd_eq, List.take_append, List.take_of_length_le (by omega), ht]
  rw [hcmdEq, run_append, hrun, Option.bind_some] at hrun'
  have hcomment : r.mode ≠ .comment := by
    intro hm
    have hsame := run_comment hm hrun'
    rw [hsame, hone] at hend
    simp [arguments] at hend
  have hbet := between_of_closed hclosed hcomment
  -- what is there is enough for the words, and no more
  have hfew : others t + 1 ≤ heldBy (options z (message format row (hostName row))) + 2 * 5 := by
    have hsub := List.Sublist.countP_le (p := fun b => sym b ≠ .single) (List.take_sublist
      (2 * maxDataLen - 1 - z.sender.length) ((options z (message format row (hostName row))).flatMap optText))
    rw [ht] at hsub
    have hblank : others (0x20 :: t) = others t + 1 := by simp [others, sym]
    have hall := others_options (options_ord z (message format row (hostName row)))
    rw [← others, ← others, hblank, hall] at hsub
    exact hsub
  have hheld : ∀ text, heldBy (options z text) = heldBy (options z []) + others text := by
    intro text
    have hnil : others [] = 0 := rfl
    simp only [heldBy, options, List.map_cons, List.map_nil, List.sum_cons, List.sum_nil, hnil]
    omega
  have hhost : others (hostName row) ≤ others (hostText row) := (List.take_sublist _ _).countP_le
  have hfew' : others t + 1 ≤ heldBy (options z (message format row (hostText row))) + 2 * 5 := by
    rw [hheld, others_message] at hfew ⊢
    omega
  obtain ⟨hquotes, hexact⟩ := noQuotes_of_words hbet hone hrun' (by rw [hend, arguments_eq]) (options_ord z _) hfew'
  have hfits : (hostText row).length < maxDataLen := by
    have hnq : NoQuote (hostText row) := by
      intro b hb
      refine hquotes (0x6f, message format row (hostText row)) (by simp [options]) b ?_
      simp [message, hb]
    have hlen := others_eq_length.2 hnq
    have hcut := others_le_length (hostName row)
    rw [hostName, List.length_take] at hcut
    have hsame : others (hostText row) ≤ others (hostName row) := by
      have hfive : (options z (message format row (hostText row))).length = 5 := rfl
      rw [hfive, hheld, others_message] at hexact
      rw [hheld, others_message] at hfew
      omega
    simp only [maxDataLen] at hcut ⊢
    rw [hostName] at hsame
    simp only [maxDataLen] at hsame
    omega
  refine ⟨⟨name, r, w, hrun, hbet, hone⟩, options_noQuote.1 hquotes, hfits, ?_⟩
  by_contra hroom
  refine @words_cut _ name r w ⟨hrun, hbet, hone⟩ ((options z (message format row (hostText row))).take 4)
    (0x6f, message format row (hostText row)) ?_ (2 * maxDataLen - 1) ?_ ?_
  · exact fun o ho => ⟨options_ord z _ o ho, hquotes o ho⟩
  · rw [fullCmd_eq] at hroom
    exact Nat.lt_of_lt_of_le (by simp [maxDataLen]) (Nat.le_of_not_lt hroom)
  · rw [cmd, hostName_eq hfits, fullCmd_eq] at hcmd
    exact hcmd

def sampleInfo : ZbxsndInfo :=
  ⟨ascii "127.0.0.1", ascii "10051", ascii "Zabbix server", ascii "jasender", ascii "/usr/bin/zabbix_sender"⟩

/-- The message of a job that wrote `'; id; '` to its standard error. -/
def quotedRow : MessageRow :=
  ⟨ascii "20240401120000", 1, some (ascii "Admin"), some (ascii "host1"), some (ascii "NET"), some (ascii "NET/JOB"),
    some (ascii "JARUNICONJOB200017"), some (ascii "'; id; '")⟩

end JobArranger.Notice
