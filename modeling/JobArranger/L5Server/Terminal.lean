import JobArranger.L1Data.Output
import Mathlib.Data.List.Infix

/-!
# An interactive command (`jobarg_session/jobarg_session.c`)

`ssh_exec` writes the command to the channel until as many bytes have been
accepted as it has, and `ssh_read` collects the answer in a buffer of
`JA_STD_OUT_LEN` bytes until the prompt stands in it. Every write starts at
the beginning of the command, and once the buffer is full nothing is looked
for any more.

* `transmit_iff`: which runs of writes send the command once.
* `sshRead_reading`: the buffer is always the answer so far, cut to its size.
* `prompt_ends_iff`: the answer ends with the prompt exactly when the prompt
  ends in the buffer and no NUL stands before its end.
* `never_left`: otherwise it never ends.
-/
namespace JobArranger.Terminal

open Output (stdOutLen)

/-! ## Sending -/

/-- What `libssh2_channel_write` makes of `len` bytes. -/
inductive Written (len : Nat) where
  | accepted (n : Fin (len + 1))
  | eagain
  | error
  deriving DecidableEq

inductive Sent where
  | waiting
  | failed
  | done (bytes : Text)
  deriving DecidableEq

/-- The loop of `ssh_exec`; `sent` is what has been accepted.
mirrors src/jobarg_session/jobarg_session.c:1090-1111 -/
def transmit (sendData : Text) (wlen : Nat) (sent : Text) : List (Written sendData.length) → Sent
  | [] => .waiting
  | .error :: _ => .failed
  | .eagain :: rs => if wlen < sendData.length then transmit sendData wlen sent rs else .done sent
  | .accepted n :: rs =>
    if wlen + n < sendData.length then transmit sendData (wlen + n) (sent ++ sendData.take n) rs
    else .done (sent ++ sendData.take n)

/-- The bytes accepted. -/
def total {len : Nat} : List (Written len) → Nat
  | [] => 0
  | .accepted n :: rs => n + total rs
  | _ :: rs => total rs

/-- From `wlen` on each piece, taken from the beginning of the command, is
also what stands where the last piece ended. -/
def Aligned (sendData : Text) (wlen : Nat) (rs : List (Written sendData.length)) : Prop :=
  ∀ pre (n : Fin (sendData.length + 1)) post, rs = pre ++ .accepted n :: post → wlen + total pre < sendData.length →
    sendData.take n <+: sendData.drop (wlen + total pre)

section
variable {data : Text} {wlen : Nat} {sent out : Text} {rs : List (Written data.length)}

/-- What has been accepted stays accepted. -/
theorem transmit_prefix (h : transmit data wlen sent rs = .done out) : sent <+: out := by
  induction rs generalizing wlen sent with
  | nil => exact absurd h (by simp [transmit])
  | cons r rs ih =>
    cases r with
    | error => exact absurd h (by simp [transmit])
    | eagain =>
      rw [transmit] at h
      split at h
      · exact ih h
      · obtain rfl := Sent.done.inj h
        exact List.prefix_refl sent
    | accepted n =>
      rw [transmit] at h
      split at h
      · exact (List.prefix_append _ _).trans (ih h)
      · obtain rfl := Sent.done.inj h
        exact List.prefix_append _ _

theorem aligned_eagain : Aligned data wlen (.eagain :: rs) ↔ Aligned data wlen rs := by
  constructor
  · intro h pre n post he
    exact h (.eagain :: pre) n post (by rw [he]; rfl)
  · intro h pre n post he hlt
    cases pre with
    | nil => exact absurd (List.cons.inj he).1 (by simp)
    | cons r pre =>
      obtain ⟨rfl, hrs⟩ := List.cons.inj he
      exact h pre n post hrs hlt

theorem aligned_accepted {n : Fin (data.length + 1)} :
    Aligned data wlen (.accepted n :: rs) ↔
      (wlen < data.length → data.take n <+: data.drop wlen) ∧ Aligned data (wlen + n) rs := by
  constructor
  · intro h
    refine ⟨h [] n rs rfl, ?_⟩
    intro pre m post he hlt
    have hsum : wlen + total (.accepted n :: pre) = wlen + n + total pre := by rw [total]; omega
    have := h (.accepted n :: pre) m post (by rw [he]; rfl)
    rw [hsum] at this
    exact this hlt
  · rintro ⟨hfirst, hrest⟩ pre m post he hlt
    cases pre with
    | nil =>
      obtain ⟨hn, -⟩ := List.cons.inj he
      obtain rfl := Written.accepted.inj hn
      exact hfirst hlt
    | cons r pre =>
      obtain ⟨rfl, hrs⟩ := List.cons.inj he
      have hsum : wlen + total (.accepted n :: pre) = wlen + n + total pre := by rw [total]; omega
      rw [hsum] at hlt ⊢
      exact hrest pre m post hrs hlt

/-- While the pieces fit, what is sent is the beginning of the command; a
piece that does not fit is never put right. -/
theorem transmit_spec (h : transmit data wlen (data.take wlen) rs = .done out) (hw : wlen < data.length) :
    out = data ↔ Aligned data wlen rs := by
  induction rs generalizing wlen with
  | nil => exact absurd h (by simp [transmit])
  | cons r rs ih =>
    cases r with
    | error => exact absurd h (by simp [transmit])
    | eagain =>
      rw [transmit, if_pos hw] at h
      rw [aligned_eagain]
      exact ih h hw
    | accepted n =>
      rw [aligned_accepted]
      have hcut : data.take wlen ++ data.drop wlen = data := List.take_append_drop wlen data
      by_cases hfit : data.take n <+: data.drop wlen
      · obtain ⟨x, hx⟩ := hfit
        have hn : (data.take n).length = n := by
          have := n.isLt
          rw [List.length_take]
          omega
        have hle : wlen + n ≤ data.length := by
          have := congrArg List.length hx
          rw [List.length_append, List.length_drop, hn] at this
          omega
        have hsent : data.take wlen ++ data.take n = data.take (wlen + n) := by
          rw [List.take_add, ← hx, List.take_left' hn]
        rw [transmit, hsent] at h
        by_cases hmore : wlen + n < data.length
        · rw [if_pos hmore] at h
          rw [ih h hmore]
          exact ⟨fun ha => ⟨fun _ => ⟨x, hx⟩, ha⟩, And.right⟩
        · rw [if_neg hmore] at h
          obtain rfl := Sent.done.inj h
          have hall : data.take (wlen + n) = data := List.take_of_length_le (by omega)
          refine iff_of_true hall ⟨fun _ => ⟨x, hx⟩, ?_⟩
          intro pre m post _ hlt
          omega
      · -- the piece does not belong here, and stays
        have hno : out ≠ data := by
          rintro rfl
          apply hfit
          have hpre : out.take wlen ++ out.take n <+: out := by
            rw [transmit] at h
            split at h
            · exact transmit_prefix h
            · rw [Sent.done.inj h]
          exact (List.prefix_append_right_inj (out.take wlen)).1 (hpre.trans (by rw [hcut]))
        exact iff_of_false hno fun ha => hfit (ha.1 hw)

end

/-- A run of writes that ends sends the command, and nothing else, exactly
when each piece is what was due at its place. -/
theorem transmit_iff {sendData sent : Text} {rs : List (Written sendData.length)}
    (h : transmit sendData 0 [] rs = .done sent) : sent = sendData ↔ Aligned sendData 0 rs := by
  by_cases hlen : sendData.length = 0
  · obtain rfl := List.length_eq_zero_iff.1 hlen
    have hnone : sent = [] := by
      cases rs with
      | nil => exact absurd h (by simp [transmit])
      | cons r rs =>
        cases r with
        | error => exact absurd h (by simp [transmit])
        | eagain => simpa [transmit, eq_comm] using h
        | accepted n => simpa [transmit, eq_comm] using h
    refine iff_of_true hnone ?_
    intro pre n post _ hlt
    exact absurd hlt (by simp)
  · exact transmit_spec (by rw [List.take_zero]; exact h) (by omega)

/-- A server that takes two bytes at once after a full window. -/
theorem transmit_whole :
    transmit (ascii "ls") 0 [] [.eagain, .accepted 2] = .done (ascii "ls") ∧
      (ascii "ls" = ascii "ls" ↔ Aligned (ascii "ls") 0 [.eagain, .accepted 2]) := by
  have h : transmit (ascii "ls") 0 [] [.eagain, .accepted 2] = .done (ascii "ls") := by decide
  exact ⟨h, transmit_iff h⟩

/-- A server that takes one byte at a time is sent the first byte twice. -/
theorem partial_write_repeats :
    transmit (ascii "ls") 0 [] [.accepted 1, .accepted 1] = .done (ascii "ll") ∧ ascii "ll" ≠ ascii "ls" := by
  decide

/-! ## Reading -/

/-- What one `libssh2_channel_read` into `buf[2048]` delivers. -/
structure Chunk where
  bytes : Text
  pos : 0 < bytes.length
  fits : bytes.length ≤ 2048

/-- What it returns; `stopped` is the force-stop check while it would block. -/
inductive Read where
  | chunk (c : Chunk)
  | eagain (stopped : Bool)
  | eof
  | error

/-- What becomes of the loop after one read. -/
inductive Step where
  | on (stored : Text)
  | left (stored : Text)
  | failed

inductive Outcome where
  | reading (stored : Text)
  | left (stored : Text) (rest : List Read)
  | failed

/-- The C string in the buffer, which is filled up with NULs. -/
def cString (stored : Text) : Text := stored.takeWhile (· != 0)

section
variable (interactive : Bool) (prompt : Text)

/-- mirrors src/jobarg_session/jobarg_session.c:647-695 -/
def readStep (stored : Text) : Read → Step
  | .chunk c =>
    let room := stdOutLen - (stored.length + 1)
    let sz := if c.bytes.length > room then room else c.bytes.length
    if sz = 0 then .on stored
    else
      let buffer := stored ++ c.bytes.take sz
      if interactive ∧ prompt <:+: cString buffer then .left buffer else .on buffer
  | .eagain stopped => if stopped then .failed else .on stored
  | .eof => .left stored
  | .error => .failed

/-- mirrors src/jobarg_session/jobarg_session.c:635-708 -/
def sshRead (stored : Text) : List Read → Outcome
  | [] => .reading stored
  | r :: rs =>
    match readStep interactive prompt stored r with
    | .on stored => sshRead stored rs
    | .left stored => .left stored rs
    | .failed => .failed

end

/-- What the server has sent. -/
def received : List Read → Text
  | [] => []
  | .chunk c :: rs => c.bytes ++ received rs
  | _ :: rs => received rs

/-- Chunks, and waits that are not stopped. -/
def Calm (rs : List Read) : Prop := ∀ r ∈ rs, (∃ c, r = .chunk c) ∨ r = .eagain false

/-- What fits the buffer beside its NUL. -/
def cut (d : Text) : Text := d.take (stdOutLen - 1)

/-- The loop is left behind the chunk that completes the prompt, with what has
been received, and at no time is anything else stored. -/
structure EndsAtPrompt (prompt : Text) (pre : List Read) (c : Chunk) (post : List Read) : Prop where
  left : sshRead true prompt [] (pre ++ .chunk c :: post) = .left (cut (received pre ++ c.bytes)) post
  stored : ∀ reads stored, reads <+: pre ++ .chunk c :: post → sshRead true prompt [] reads = .reading stored →
    stored = cut (received reads)

section
variable {interactive : Bool} {prompt d : Text}

/-- A chunk is stored as far as there is room, and looked through if there is. -/
theorem readStep_chunk (c : Chunk) :
    readStep interactive prompt (cut d) (.chunk c) =
      if d.length < stdOutLen - 1 ∧ interactive = true ∧ prompt <:+: cString (cut (d ++ c.bytes)) then
        .left (cut (d ++ c.bytes))
      else .on (cut (d ++ c.bytes)) := by
  have hpos := c.pos
  have hlen : (cut d).length = min (stdOutLen - 1) d.length := List.length_take
  by_cases hroom : d.length < stdOutLen - 1
  · have hcut : cut d = d := List.take_of_length_le (by omega)
    have hsz : c.bytes.take (if c.bytes.length > stdOutLen - (d.length + 1) then stdOutLen - (d.length + 1)
        else c.bytes.length) = c.bytes.take (stdOutLen - 1 - d.length) := by
      split
      · congr 1
        omega
      · rw [List.take_of_length_le (Nat.le_refl _), List.take_of_length_le (by omega)]
    have hbuffer : d ++ c.bytes.take (stdOutLen - 1 - d.length) = cut (d ++ c.bytes) := by
      rw [cut, List.take_append, List.take_of_length_le (Nat.le_of_lt hroom)]
    have hne : ¬ (if c.bytes.length > stdOutLen - (d.length + 1) then stdOutLen - (d.length + 1)
        else c.bytes.length) = 0 := by
      split <;> omega
    simp only [readStep, hcut, if_neg hne, hsz, hbuffer, hroom, true_and]
  · have hfull : stdOutLen - ((cut d).length + 1) = 0 := by omega
    have hsame : cut (d ++ c.bytes) = cut d := List.take_append_of_le_length (by omega)
    simp only [readStep, hfull, gt_iff_lt, hpos, if_true, hroom, false_and, if_false, hsame]

/-- **The buffer.** As long as the answer is read, what is stored is what has
been received, cut to the buffer. -/
theorem sshRead_reading {reads : List Read} {stored : Text}
    (h : sshRead interactive prompt (cut d) reads = .reading stored) : stored = cut (d ++ received reads) := by
  induction reads generalizing d with
  | nil =>
    obtain rfl := Outcome.reading.inj h
    rw [received, List.append_nil]
  | cons r rs ih =>
    cases r with
    | chunk c =>
      rw [sshRead, readStep_chunk] at h
      rw [received, ← List.append_assoc]
      split at h
      · rename_i hstep
        split at hstep
        · exact absurd hstep (by simp)
        · obtain rfl := Step.on.inj hstep
          exact ih h
      · exact absurd h (by simp)
      · exact absurd h (by simp)
    | eagain stopped =>
      cases stopped with
      | false => exact ih h
      | true => exact absurd h (by simp [sshRead, readStep])
    | eof => exact absurd h (by simp [sshRead, readStep])
    | error => exact absurd h (by simp [sshRead, readStep])

/-- Until the prompt has arrived the loop goes on. -/
theorem sshRead_passes {pre : List Read} (hcalm : Calm pre)
    (hnew : received pre ≠ [] → ¬ prompt <:+: d ++ received pre) (post : List Read) :
    sshRead true prompt (cut d) (pre ++ post) = sshRead true prompt (cut (d ++ received pre)) post := by
  induction pre generalizing d with
  | nil => rw [received, List.append_nil, List.nil_append]
  | cons r rs ih =>
    have hrest : Calm rs := fun r hr => hcalm r (List.mem_cons_of_mem _ hr)
    obtain ⟨c, rfl⟩ | rfl := hcalm r List.mem_cons_self
    · have hne : received (.chunk c :: rs) ≠ [] := by
        have := c.pos
        rw [received]
        exact List.append_ne_nil_of_left_ne_nil (List.length_pos_iff.1 this) _
      have hno := hnew hne
      rw [received, ← List.append_assoc] at hno
      have hmiss : ¬ prompt <:+: cString (cut (d ++ c.bytes)) := by
        intro hin
        apply hno
        have hpre : cString (cut (d ++ c.bytes)) <+: d ++ c.bytes :=
          (List.takeWhile_prefix _).trans (List.take_prefix _ _)
        exact hin.trans (hpre.trans (List.prefix_append _ _)).isInfix
      rw [List.cons_append, sshRead, readStep_chunk, if_neg (fun h => hmiss h.2.2), received, ← List.append_assoc]
      exact ih hrest fun _ => hno
    · exact ih hrest hnew

theorem sshRead_rest {reads rest : List Read} {stored : Text} {s : Text}
    (h : sshRead interactive prompt s reads = .left stored rest) : rest.length < reads.length := by
  induction reads generalizing s with
  | nil => exact absurd h (by simp [sshRead])
  | cons r rs ih =>
    rw [sshRead] at h
    rw [List.length_cons]
    split at h
    · exact Nat.lt_succ_of_lt (ih h)
    · obtain ⟨-, rfl⟩ := Outcome.left.inj h
      exact Nat.lt_succ_self _
    · exact absurd h (by simp)

/-- The answer ends with the chunk that completes the prompt if and only if
the prompt stands in the buffer then, before any NUL. -/
theorem prompt_ends_iff {pre post : List Read} {c : Chunk} (hcalm : Calm pre)
    (hnew : received pre ≠ [] → ¬ prompt <:+: received pre) :
    EndsAtPrompt prompt pre c post ↔ prompt <:+: cString (cut (received pre ++ c.bytes)) := by
  have hrun : sshRead true prompt [] (pre ++ .chunk c :: post) =
      sshRead true prompt (cut (received pre)) (.chunk c :: post) :=
    sshRead_passes (d := []) hcalm hnew (.chunk c :: post)
  rw [sshRead, readStep_chunk] at hrun
  constructor
  · intro h
    by_contra hmiss
    rw [if_neg (fun hin => hmiss hin.2.2), h.left] at hrun
    exact absurd (sshRead_rest hrun.symm) (Nat.lt_irrefl _)
  · intro hin
    have hroom : (received pre).length < stdOutLen - 1 := by
      -- a full buffer has been looked through before
      by_contra hfull
      have hsame : cut (received pre ++ c.bytes) = cut (received pre) := List.take_append_of_le_length (by omega)
      have hpre : cString (cut (received pre)) <+: received pre :=
        (List.takeWhile_prefix _).trans (List.take_prefix _ _)
      have hne : received pre ≠ [] := by
        intro he
        rw [he, List.length_nil] at hfull
        exact hfull (by decide)
      rw [hsame] at hin
      exact hnew hne (hin.trans hpre.isInfix)
    rw [if_pos ⟨hroom, rfl, hin⟩] at hrun
    exact ⟨hrun, fun reads stored _ h => sshRead_reading (d := []) h⟩

/-- What a full buffer, or the text before a NUL, does not hold is never found. -/
theorem sshRead_stuck {rs : List Read} (hcalm : Calm rs) (hmiss : ¬ prompt <:+: cString (cut d))
    (hstuck : stdOutLen - 1 ≤ d.length ∨ 0 ∈ cut d) :
    sshRead true prompt (cut d) rs = .reading (cut (d ++ received rs)) := by
  induction rs generalizing d with
  | nil => rw [sshRead, received, List.append_nil]
  | cons r rs ih =>
    have hrest : Calm rs := fun r hr => hcalm r (List.mem_cons_of_mem _ hr)
    obtain ⟨c, rfl⟩ | rfl := hcalm r List.mem_cons_self
    · have hsame : cString (cut (d ++ c.bytes)) = cString (cut d) := by
        by_cases hroom : d.length < stdOutLen - 1
        · have hzero : 0 ∈ cut d := hstuck.resolve_left (by omega)
          have hshort : ¬ ((cut d).takeWhile (· != 0)).length = (cut d).length := by
            intro hl
            have hall := List.takeWhile_prefix (l := cut d) (· != 0) |>.eq_of_length hl
            rw [← hall] at hzero
            exact absurd (List.mem_takeWhile_imp hzero) (by simp)
          rw [cut, List.take_append, cString, List.takeWhile_append, ← cut, if_neg hshort]
          rfl
        · rw [cut, List.take_append_of_le_length (by omega), ← cut]
      have hmiss' : ¬ prompt <:+: cString (cut (d ++ c.bytes)) := by rwa [hsame]
      have hstuck' : stdOutLen - 1 ≤ (d ++ c.bytes).length ∨ 0 ∈ cut (d ++ c.bytes) := by
        obtain hfull | hzero := hstuck
        · left
          rw [List.length_append]
          omega
        · right
          rw [cut, List.take_append]
          exact List.mem_append_left _ hzero
      rw [sshRead, readStep_chunk, if_neg (fun h => hmiss' h.2.2), received, ← List.append_assoc]
      exact ih hrest hmiss' hstuck'
    · exact ih hrest hmiss hstuck

/-- A prompt that has arrived outside the buffer, or behind a NUL, is waited
for as long as the server sends anything. -/
theorem never_left {pre post : List Read} {c : Chunk} (hpre : Calm pre) (hpost : Calm post)
    (hnew : received pre ≠ [] → ¬ prompt <:+: received pre) (hc : prompt <:+: received pre ++ c.bytes)
    (hmiss : ¬ prompt <:+: cString (cut (received pre ++ c.bytes))) :
    sshRead true prompt [] (pre ++ .chunk c :: post) = .reading (cut (received pre ++ c.bytes ++ received post)) := by
  have hrun : sshRead true prompt [] (pre ++ .chunk c :: post) =
      sshRead true prompt (cut (received pre)) (.chunk c :: post) :=
    sshRead_passes (d := []) hpre hnew (.chunk c :: post)
  rw [hrun, sshRead, readStep_chunk, if_neg (fun h => hmiss h.2.2)]
  refine sshRead_stuck hpost hmiss ?_
  by_contra hno
  obtain ⟨hroom, hzero⟩ := not_or.1 hno
  have hcut : cut (received pre ++ c.bytes) = received pre ++ c.bytes := List.take_of_length_le (by omega)
  rw [hcut] at hmiss hzero
  have hall : cString (received pre ++ c.bytes) = received pre ++ c.bytes := by
    refine List.takeWhile_eq_self_iff.2 fun b hb => ?_
    simp only [bne_iff_ne]
    rintro rfl
    exact hzero hb
  rw [hall] at hmiss
  exact hmiss hc

end

/-- The prompt `$` behind a short answer. -/
theorem prompt_ends_short :
    Calm [.eagain false] ∧ (received [.eagain false] ≠ [] → ¬ ascii "$" <:+: received [.eagain false]) ∧
      (EndsAtPrompt (ascii "$") [.eagain false] ⟨ascii "ok$", by decide, by decide⟩ [] ↔
        ascii "$" <:+: cString (cut (received [.eagain false] ++ ascii "ok$"))) := by
  have hcalm : Calm [.eagain false] := fun r hr => .inr (List.mem_singleton.1 hr)
  have hnew : received [.eagain false] ≠ [] → ¬ ascii "$" <:+: received [.eagain false] := fun h => absurd rfl h
  exact ⟨hcalm, hnew, prompt_ends_iff hcalm hnew⟩

/-- A chunk of letters, as long as they get. -/
def fullChunk : Chunk where
  bytes := List.replicate 2048 97
  pos := by rw [List.length_replicate]; decide
  fits := by rw [List.length_replicate]

def dollar : Chunk := ⟨ascii "$", by decide, by decide⟩

theorem received_fullChunks (n : Nat) :
    received (List.replicate n (.chunk fullChunk)) = List.replicate (2048 * n) 97 := by
  induction n with
  | zero => rfl
  | succ n ih =>
    rw [List.replicate_succ, received, ih, fullChunk, List.replicate_append_replicate]
    congr 1
    omega

/-- Behind 65536 bytes the prompt `$` is never found. -/
theorem late_prompt_hangs :
    Calm (List.replicate 32 (.chunk fullChunk)) ∧
      ¬ ascii "$" <:+: received (List.replicate 32 (.chunk fullChunk)) ∧
      ascii "$" <:+: received (List.replicate 32 (.chunk fullChunk)) ++ dollar.bytes ∧
      ¬ EndsAtPrompt (ascii "$") (List.replicate 32 (.chunk fullChunk)) dollar [] := by
  have hcalm : Calm (List.replicate 32 (.chunk fullChunk)) := by
    intro r hr
    exact .inl ⟨fullChunk, List.eq_of_mem_replicate hr⟩
  have hletters : ∀ {t : Text}, t <+: List.replicate (2048 * 32) 97 → ¬ ascii "$" <:+: t := by
    intro t ht hin
    have hmem : (36 : UInt8) ∈ List.replicate (2048 * 32) (97 : UInt8) :=
      ht.subset (hin.subset (by decide : (36 : UInt8) ∈ ascii "$"))
    exact absurd (List.eq_of_mem_replicate hmem) (by decide)
  have hc : ascii "$" <:+: received (List.replicate 32 (.chunk fullChunk)) ++ dollar.bytes :=
    (List.suffix_append _ _).isInfix
  have hno : ¬ ascii "$" <:+: received (List.replicate 32 (.chunk fullChunk)) := by
    rw [received_fullChunks]
    exact hletters (List.prefix_refl _)
  refine ⟨hcalm, hno, hc, ?_⟩
  intro h
  have hmiss : ¬ ascii "$" <:+: cString (cut (received (List.replicate 32 (.chunk fullChunk)) ++ dollar.bytes)) := by
    rw [received_fullChunks, cut, List.take_append_of_le_length (by rw [List.length_replicate]; decide)]
    exact hletters ((List.takeWhile_prefix _).trans (List.take_prefix _ _))
  have hhang := never_left hcalm (show Calm [] by simp [Calm]) (fun _ => hno) hc hmiss
  rw [h.left] at hhang
  exact absurd hhang (by simp)

end JobArranger.Terminal
