import JobArranger.Core.Bytes
import JobArranger.L6Agent.Send
import Mathlib.Data.List.TakeWhile

/-!
# Messages on a connection (`libs/zbxcomms/comms.c`)

A message goes out behind a header and its length. The header and the length
are one `write` each, which is not repeated when it is short; the message is
written in as many pieces as the socket takes. The receiver reads the header
and the length with one `read` each, and then whatever comes: first into the
buffer of the socket, which has 2048 bytes, and behind that into one that
grows. What the pieces are is not up to either side.

* `sendExt_spec`: what is on the connection after the call.
* `recvExt_spec`: what the receiver makes of any bytes behind the length.
* `message_delivered`: the receiver has what has arrived of a message,
  whatever the pieces.
-/
namespace JobArranger.Comms

open Agent (cString)

/-! ## Sockets -/

/-- The bytes that arrive, in the pieces that `read` gives them in, and
whether an error comes behind them or the end of the connection. -/
structure Wire where
  pieces : List Text
  broken : Bool
  deriving DecidableEq, Repr

def Wire.bytes (w : Wire) : Text := w.pieces.flatten

/-- `read` of at most `n` bytes; `none` is `ZBX_TCP_ERROR`. -/
def Wire.read (w : Wire) (n : Nat) : Option Text × Wire :=
  match w.pieces with
  | [] => (if w.broken then none else some [], w)
  | p :: ps =>
    if p.length ≤ n then (some p, { w with pieces := ps }) else (some (p.take n), { w with pieces := p.drop n :: ps })

/-! ## Sending -/

/-- `"ZBXD\1"`. mirrors src/libs/zbxcomms/comms.c:414-417 -/
def header : Text := [0x5a, 0x42, 0x58, 0x44, 0x01]

/-- `write`, by the number of the call and the bytes that are offered: how
many are taken, or an error. -/
abbrev Write := Nat → Text → Option Nat

/-- The loop over the message; `none` when it does not end.
mirrors src/libs/zbxcomms/comms.c:456-464 -/
def sendLoop (write : Write) : Nat → Nat → Text → Text → Option (Ret × Text)
  | 0, _, _, _ => none
  | fuel + 1, call, rest, out =>
    if rest = [] then some (.succeed, out)
    else match write call rest with
      | none => some (.fail, out)
      | some i => sendLoop write fuel (call + 1) (rest.drop i) (out ++ rest.take i)

/-- The result, and the bytes that are on the connection then.
mirrors src/libs/zbxcomms/comms.c:419-470 -/
def sendExt (write : Write) (fuel : Nat) (data : Text) (protocol : Bool) : Option (Ret × Text) :=
  if protocol then
    match write 0 header with
    | none => some (.fail, [])
    | some h =>
      let len64 := leBytes 8 data.length
      match write 1 len64 with
      | none => some (.fail, header.take h)
      | some l => sendLoop write fuel 2 data (header.take h ++ len64.take l)
  else sendLoop write fuel 0 data []

/-! ## Receiving -/

/-- `ZBX_STAT_BUF_LEN` (include/comms.h:69). -/
def statBufLen : Nat := 2048

/-- `ZBX_MAX_RECV_DATA_SIZE` (include/common.h:861). -/
def maxRecvDataSize : Nat := 128 * 1048576

/-- What a loop of reads leaves: the number of bytes, the buffer, and whether
the last read failed. -/
structure Filled where
  readBytes : Nat
  buf : Text
  failed : Bool
  wire : Wire

/-- `strstr` finds `</req>` behind the position. -/
def reqCloses (buf : Text) (pos : Nat) : Bool :=
  (cString (buf.drop pos)).tails.any ([0x3c, 0x2f, 0x72, 0x65, 0x71, 0x3e].isPrefixOf ·)

/-- The XML protocol, whose end has not come yet. -/
def reqOpen (buf : Text) (pos : Nat) : Bool :=
  [0x3c, 0x72, 0x65, 0x71, 0x3e].isPrefixOf buf && !reqCloses buf pos

/-- mirrors src/libs/zbxcomms/comms.c:977-1006 -/
def fillStat (untilClose : Bool) (expectedLen : Nat) : Nat → Nat → Text → Wire → Option Filled
  | 0, _, _, _ => none
  | fuel + 1, left, buf, w =>
    if buf.length < expectedLen ∧ 0 < left then
      match w.read left with
      | (none, w) => some ⟨buf.length, buf, true, w⟩
      | (some t, w) =>
        let buf' := buf ++ t
        let goOn := if untilClose then t ≠ [] else left ≤ t.length ∨ reqOpen buf' (buf'.length - 10) = true
        if goOn then fillStat untilClose expectedLen fuel (left - t.length) buf' w
        else some ⟨buf'.length, buf', false, w⟩
    else some ⟨buf.length, buf, false, w⟩

/-- `zbx_strncpy_alloc` copies up to a zero byte; `readBytes` counts all of a
read. mirrors src/libs/zbxcomms/comms.c:1022-1049 -/
def fillDyn (untilClose : Bool) (expectedLen : Nat) : Nat → Filled → Option Filled
  | 0, _ => none
  | fuel + 1, f =>
    if f.readBytes < expectedLen then
      match f.wire.read statBufLen with
      | (none, w) => some { f with failed := true, wire := w }
      | (some t, w) =>
        let f' : Filled := ⟨f.readBytes + t.length, f.buf ++ cString t, false, w⟩
        let goOn := if untilClose then t ≠ []
          else statBufLen - 1 ≤ t.length ∨ reqOpen f'.buf (f'.readBytes - 10) = true
        if goOn then fillDyn untilClose expectedLen fuel f' else some f'
    else some f

/-- What a call returns: the number of bytes (`none` is `FAIL`), and the text at `data`. -/
structure Received where
  total : Option Nat
  data : Text
  wire : Wire

def Filled.received (total : Nat) (f : Filled) : Received :=
  ⟨if f.failed then none else some (total + f.readBytes), cString f.buf, f.wire⟩

/-- Requests to passive agents end with a line feed.
mirrors src/libs/zbxcomms/comms.c:971-1068 -/
def recvBody (untilClose : Bool) (expectedLen fuel total : Nat) (buf : Text) (w : Wire) : Option Received :=
  let stat := if buf.getLast? = some 0x0a then some ⟨buf.length, buf, false, w⟩
    else fillStat untilClose expectedLen fuel (statBufLen - buf.length - 1) buf w
  (stat.bind fun f =>
    if f.buf.length = statBufLen - 1 then fillDyn untilClose expectedLen fuel f else some f).map (Filled.received total)

/-- `expected_len` is not set before it is read; `garbage` has its bytes.
mirrors src/libs/zbxcomms/comms.c:909-1068 -/
def recvExt (garbage : Text) (untilClose : Bool) (fuel : Nat) (w : Wire) : Option Received :=
  match w.read header.length with
  | (none, w) => some ⟨none, [], w⟩
  | (some t, w) =>
    if t = header then
      let (l, w) := w.read 8
      let expectedLen := leVal ((l.getD [] ++ garbage.drop (l.getD []).length).take 8)
      if maxRecvDataSize < expectedLen then some ⟨none, [], w⟩
      else match l with
        | none => some ⟨none, [], w⟩
        | some [] => some ⟨some header.length, [], w⟩
        | some (_ :: _) => recvBody true expectedLen fuel header.length [] w
    else if if untilClose then t = [] else t.length < header.length then some ⟨some t.length, cString t, w⟩
    else recvBody untilClose (16 * 1048576) fuel 0 t w

/-! ## One read -/

/-- `w'` is `w` with `t` read from it. -/
structure Wire.Gives (w : Wire) (t : Text) (w' : Wire) : Prop where
  bytes : t ++ w'.bytes = w.bytes
  pieces : [] ∉ w'.pieces
  broken : w'.broken = w.broken

theorem Wire.Gives.trans {w w' w'' : Wire} {t u : Text} (h : w.Gives t w') (h' : w'.Gives u w'') :
    w.Gives (t ++ u) w'' where
  bytes := by rw [List.append_assoc, h'.bytes, h.bytes]
  pieces := h'.pieces
  broken := h'.broken.trans h.broken

theorem Wire.gives_nil {w : Wire} (h : [] ∉ w.pieces) : w.Gives [] w := ⟨rfl, h, rfl⟩

/-- Nothing has been left, or a piece of it is read. -/
theorem Wire.read_spec {w : Wire} (hw : [] ∉ w.pieces) {n : Nat} (hn : 0 < n) :
    (w.bytes = [] ∧ w.read n = (if w.broken then none else some [], w)) ∨
      ∃ t w', w.read n = (some t, w') ∧ t ≠ [] ∧ t.length ≤ n ∧ w.Gives t w' := by
  obtain ⟨pieces, broken⟩ := w
  cases pieces with
  | nil => exact .inl ⟨rfl, rfl⟩
  | cons p ps =>
    have hp : p ≠ [] := fun h => hw (h ▸ List.mem_cons_self)
    have hps : [] ∉ ps := fun h => hw (List.mem_cons_of_mem p h)
    refine .inr ?_
    by_cases hlen : p.length ≤ n
    · exact ⟨p, ⟨ps, broken⟩, by simp only [Wire.read, if_pos hlen], hp, hlen, ⟨by simp [Wire.bytes], hps, rfl⟩⟩
    · have hdrop : p.drop n ≠ [] := by
        intro h
        have := List.drop_eq_nil_iff.1 h
        omega
      refine ⟨p.take n, ⟨p.drop n :: ps, broken⟩, by simp only [Wire.read, if_neg hlen], ?_, ?_, ⟨?_, ?_, rfl⟩⟩
      · intro h
        have := congrArg List.length h
        rw [List.length_take, List.length_nil] at this
        have := List.length_pos_iff.2 hp
        omega
      · rw [List.length_take]
        exact Nat.min_le_left _ _
      · simp only [Wire.bytes, List.flatten_cons]
        rw [← List.append_assoc, List.take_append_drop]
      · intro h
        obtain h | h := List.mem_cons.1 h
        · exact hdrop h.symm
        · exact hps h

/-! ## The loops of the receiver -/

/-- What a loop has read, and why it has stopped: it has what it expects, it
has no room, or nothing more comes. -/
structure Stops (w : Wire) (expectedLen start room : Nat) (t : Text) (f : Filled) : Prop where
  gives : w.Gives t f.wire
  count : f.readBytes = start + t.length
  reason : (f.failed = false ∧ (expectedLen ≤ f.readBytes ∨ room ≤ f.readBytes)) ∨
    (f.failed = w.broken ∧ f.wire.bytes = [] ∧ f.readBytes < expectedLen ∧ f.readBytes < room)

theorem fillStat_spec (expectedLen : Nat) {fuel left : Nat} (buf : Text) {w : Wire} (hw : [] ∉ w.pieces)
    (hleft : buf.length + left = statBufLen - 1) (hfuel : w.bytes.length < fuel) :
    ∃ t f, fillStat true expectedLen fuel left buf w = some f ∧ f.buf = buf ++ t ∧
      f.readBytes ≤ statBufLen - 1 ∧ Stops w expectedLen buf.length (statBufLen - 1) t f := by
  induction fuel generalizing left buf w with
  | zero => omega
  | succ fuel ih =>
    have hlast : (buf ++ ([] : Text)).length = buf.length := by rw [List.append_nil]
    rw [fillStat]
    by_cases hgo : buf.length < expectedLen ∧ 0 < left
    · rw [if_pos hgo]
      obtain ⟨hnone, hread⟩ | ⟨t, w', hread, ht, hlen, hgives⟩ := Wire.read_spec hw hgo.2
      · cases hb : w.broken with
        | true =>
          rw [hread, hb]
          refine ⟨[], _, rfl, (List.append_nil buf).symm, ?_, ⟨Wire.gives_nil hw, rfl, .inr ⟨hb.symm, hnone, hgo.1, ?_⟩⟩⟩
          · dsimp only
            omega
          · dsimp only
            omega
        | false =>
          rw [hread, hb]
          refine ⟨[], _, rfl, rfl, ?_, ⟨Wire.gives_nil hw, hlast, .inr ⟨hb.symm, hnone, ?_, ?_⟩⟩⟩
          · dsimp only
            omega
          · dsimp only
            omega
          · dsimp only
            omega
      · rw [hread]
        have hbytes := congrArg List.length hgives.bytes
        have hpos := List.length_pos_iff.2 ht
        rw [List.length_append] at hbytes
        obtain ⟨u, f, hf, hbuf, hroom, hstops⟩ := ih (buf ++ t) hgives.pieces
          (show (buf ++ t).length + (left - t.length) = statBufLen - 1 by rw [List.length_append]; omega) (by omega)
        refine ⟨t ++ u, f, ?_, by rw [hbuf, List.append_assoc], hroom, ⟨hgives.trans hstops.gives, ?_, ?_⟩⟩
        · simpa [ht] using hf
        · rw [hstops.count, List.length_append, List.length_append, Nat.add_assoc]
        · rw [← hgives.broken]
          exact hstops.reason
    · rw [if_neg hgo]
      refine ⟨[], _, rfl, (List.append_nil buf).symm, by dsimp only; omega, ⟨Wire.gives_nil hw, rfl, .inl ⟨rfl, ?_⟩⟩⟩
      dsimp only
      omega

theorem cString_eq {t : Text} (h : 0 ∉ t) : cString t = t :=
  List.takeWhile_eq_self_iff.2 fun b hb => by simpa using fun h0 : b = 0 => h (h0 ▸ hb)

theorem fillDyn_spec (expectedLen : Nat) {fuel : Nat} {f : Filled} (hw : [] ∉ f.wire.pieces) (hnul : 0 ∉ f.wire.bytes)
    (hok : f.failed = false) (hfuel : f.wire.bytes.length < fuel) (hroom : f.readBytes < expectedLen + statBufLen) :
    ∃ t f', fillDyn true expectedLen fuel f = some f' ∧ f'.buf = f.buf ++ t ∧
      f'.readBytes < expectedLen + statBufLen ∧ Stops f.wire expectedLen f.readBytes (expectedLen + statBufLen) t f' := by
  induction fuel generalizing f with
  | zero => omega
  | succ fuel ih =>
    rw [fillDyn]
    by_cases hgo : f.readBytes < expectedLen
    · rw [if_pos hgo]
      obtain ⟨hnone, hread⟩ | ⟨t, w', hread, ht, hlen, hgives⟩ := Wire.read_spec hw (show 0 < statBufLen by decide)
      · cases hb : f.wire.broken with
        | true =>
          rw [hread, hb]
          exact ⟨[], _, rfl, (List.append_nil _).symm, hroom,
            ⟨Wire.gives_nil hw, rfl, .inr ⟨hb.symm, hnone, hgo, Nat.lt_add_right _ hgo⟩⟩⟩
        | false =>
          rw [hread, hb]
          exact ⟨[], _, rfl, rfl, hroom,
            ⟨Wire.gives_nil hw, rfl, .inr ⟨hb.symm, hnone, hgo, Nat.lt_add_right _ hgo⟩⟩⟩
      · rw [hread]
        have hbytes := congrArg List.length hgives.bytes
        have hpos := List.length_pos_iff.2 ht
        rw [List.length_append] at hbytes
        have hnul' : 0 ∉ t ∧ 0 ∉ w'.bytes := by
          rw [← hgives.bytes, List.mem_append, not_or] at hnul
          exact hnul
        obtain ⟨u, f', hf, hbuf, hroom', hstops⟩ := ih (f := ⟨f.readBytes + t.length, f.buf ++ cString t, false, w'⟩)
          hgives.pieces hnul'.2 rfl (by dsimp only; omega) (by dsimp only; omega)
        refine ⟨t ++ u, f', ?_, ?_, hroom', ⟨hgives.trans hstops.gives, ?_, ?_⟩⟩
        · simpa [ht] using hf
        · rw [hbuf, cString_eq hnul'.1, List.append_assoc]
        · rw [hstops.count, List.length_append, Nat.add_assoc]
        · rw [← hgives.broken]
          exact hstops.reason
    · rw [if_neg hgo]
      exact ⟨[], f, rfl, (List.append_nil _).symm, hroom, ⟨Wire.gives_nil hw, rfl, .inl ⟨hok, .inl (Nat.not_lt.1 hgo)⟩⟩⟩

/-! ## A message -/

/-- What is received when `len` bytes were announced and `w` is left to read. -/
structure Receives (w : Wire) (len total : Nat) (r : Received) : Prop where
  gives : w.Gives r.data r.wire
  enough : min len w.bytes.length ≤ r.data.length
  bound : r.data.length < len + statBufLen
  total : r.total = if r.data.length < len ∧ w.broken then none else some (total + r.data.length)

theorem Stops.received {w : Wire} {len room : Nat} {t : Text} {f : Filled} (h : Stops w len 0 room t f)
    (hbuf : f.buf = t) (hnul : 0 ∉ w.bytes) (hover : t.length < len + statBufLen)
    (hroom : room ≤ t.length → len ≤ t.length) (total : Nat) : Receives w len total (f.received total) := by
  have hcount : f.readBytes = t.length := h.count.trans (Nat.zero_add _)
  have hfree : 0 ∉ t := by
    rw [← h.gives.bytes, List.mem_append, not_or] at hnul
    exact hnul.1
  have hreceived : f.received total = ⟨if f.failed then none else some (total + t.length), t, f.wire⟩ := by
    rw [Filled.received, hbuf, hcount, cString_eq hfree]
  have hreason := h.reason
  rw [hcount] at hreason
  rw [hreceived]
  refine ⟨h.gives, ?_, hover, ?_⟩
  · obtain ⟨-, hreason⟩ | ⟨-, hempty, -⟩ := hreason
    · exact (Nat.min_le_left _ _).trans (hreason.elim id hroom)
    · have hall := h.gives.bytes
      rw [hempty, List.append_nil] at hall
      rw [hall]
      exact Nat.min_le_right _ _
  · dsimp only
    obtain ⟨hok, hreason⟩ | ⟨hfail, -, hshort, -⟩ := hreason
    · have hge := hreason.elim id hroom
      rw [hok, if_neg Bool.false_ne_true, if_neg fun hlt => absurd hlt.1 (Nat.not_lt.2 hge)]
    · rw [hfail]
      by_cases hb : w.broken = true
      · rw [if_pos hb, if_pos ⟨hshort, hb⟩]
      · rw [if_neg hb, if_neg fun hlt => hb hlt.2]

/-- The two loops, one behind the other. -/
theorem recvBody_spec (len : Nat) {fuel : Nat} {w : Wire} (total : Nat) (hw : [] ∉ w.pieces) (hnul : 0 ∉ w.bytes)
    (hfuel : w.bytes.length < fuel) :
    ∃ r, recvBody true len fuel total [] w = some r ∧ Receives w len total r := by
  have hstat : statBufLen = 2048 := rfl
  obtain ⟨t, f, hf, hbuf, hroom, hstops⟩ := fillStat_spec len [] hw
    (show ([] : Text).length + (statBufLen - 1) = statBufLen - 1 from Nat.zero_add _) hfuel
  rw [List.nil_append] at hbuf
  have hcount : f.readBytes = t.length := hstops.count.trans (Nat.zero_add _)
  have hstart : recvBody true len fuel total [] w =
      (if t.length = statBufLen - 1 then fillDyn true len fuel f else some f).map (Filled.received total) := by
    simp only [recvBody, List.getLast?_nil, reduceCtorEq, if_false, List.length_nil, Nat.sub_zero, hf,
      Option.bind_some, hbuf]
  rw [hstart]
  by_cases hfull : t.length = statBufLen - 1
  · have hlen := congrArg List.length hstops.gives.bytes
    rw [List.length_append] at hlen
    have hok : f.failed = false := by
      obtain ⟨hok, -⟩ | ⟨-, -, -, hlt⟩ := hstops.reason
      · exact hok
      · omega
    have hfree : 0 ∉ f.wire.bytes := by
      rw [← hstops.gives.bytes, List.mem_append, not_or] at hnul
      exact hnul.2
    obtain ⟨u, f', hf', hbuf', hroom', hstops'⟩ := fillDyn_spec len hstops.gives.pieces hfree hok
      (show f.wire.bytes.length < fuel by omega) (by omega)
    have hcount' : f'.readBytes = (t ++ u).length := by rw [hstops'.count, hcount, List.length_append]
    have hboth : Stops w len 0 (len + statBufLen) (t ++ u) f' := by
      refine ⟨hstops.gives.trans hstops'.gives, by rw [hcount', Nat.zero_add], ?_⟩
      rw [← hstops.gives.broken]
      exact hstops'.reason
    rw [if_pos hfull, hf']
    exact ⟨_, rfl, hboth.received (by rw [hbuf', hbuf]) hnul (hcount' ▸ hroom') (fun h => by omega) total⟩
  · rw [if_neg hfull]
    exact ⟨_, rfl, hstops.received hbuf hnul (by omega) (fun h => by omega) total⟩

/-- The header and the length come in one piece each; `w'` is what follows. -/
structure Whole (w : Wire) (len : Nat) (w' : Wire) : Prop where
  small : len ≤ maxRecvDataSize
  head : ∃ w₁, w.read header.length = (some header, w₁) ∧ w₁.read 8 = (some (leBytes 8 len), w')

/-- Whatever comes behind the length, in whatever pieces: the receiver takes
as much as was announced, if there is as much, and less than a buffer too
much. A connection that ends too early is not an error, one that breaks is. -/
theorem recvExt_spec {w w' : Wire} {len fuel : Nat} (garbage : Text) (untilClose : Bool) (h : Whole w len w')
    (hw : [] ∉ w'.pieces) (hnul : 0 ∉ w'.bytes) (hfuel : w'.bytes.length < fuel) :
    ∃ r, recvExt garbage untilClose fuel w = some r ∧ Receives w' len header.length r := by
  obtain ⟨w₁, hhead, hlen⟩ := h.head
  obtain ⟨r, hr, hspec⟩ := recvBody_spec len header.length hw hnul hfuel
  refine ⟨r, ?_, hspec⟩
  have hval : leVal ((leBytes 8 len ++ garbage.drop 8).take 8) = len := by
    rw [List.take_left' (leBytes_length 8 len), leVal_leBytes]
    exact Nat.mod_eq_of_lt (Nat.lt_of_le_of_lt h.small (by decide))
  have hne : ¬ maxRecvDataSize < len := Nat.not_lt.2 h.small
  simp only [recvExt, hhead, if_true, hlen, Option.getD_some, leBytes_length, hval, if_neg hne]
  exact hr

/-! ## From one side to the other -/

/-- The bytes of a message. -/
def frame (data : Text) : Text := header ++ (leBytes 8 data.length ++ data)

/-- `write` takes the header and the length whole, when it does not fail,
and at least a byte of the rest. -/
structure Takes (write : Write) (len : Nat) : Prop where
  head : ∀ h, write 0 header = some h → h = header.length
  length : ∀ l, write 1 (leBytes 8 len) = some l → l = 8
  some : ∀ call rest i, rest ≠ [] → write call rest = some i → 0 < i

theorem sendLoop_spec {write : Write} {len : Nat} (hwrite : Takes write len) {fuel : Nat} (call : Nat) {rest : Text}
    (out : Text) (hfuel : rest.length < fuel) :
    ∃ ret t, sendLoop write fuel call rest out = some (ret, out ++ t) ∧ t <+: rest ∧ (ret = .succeed → t = rest) := by
  induction fuel generalizing call rest out with
  | zero => omega
  | succ fuel ih =>
    rw [sendLoop]
    by_cases hrest : rest = []
    · exact ⟨.succeed, [], by rw [if_pos hrest, List.append_nil], List.nil_prefix, fun _ => hrest.symm⟩
    · rw [if_neg hrest]
      cases hi : write call rest with
      | none => exact ⟨.fail, [], by simp, List.nil_prefix, fun h => by cases h⟩
      | some i =>
        have hpos := hwrite.some call rest i hrest hi
        obtain ⟨ret, t, hsend, hprefix, hall⟩ := ih (call + 1) (out ++ rest.take i)
          (show (rest.drop i).length < fuel by rw [List.length_drop]; have := List.length_pos_iff.2 hrest; omega)
        refine ⟨ret, rest.take i ++ t, by rw [← List.append_assoc]; exact hsend, ?_, fun h => ?_⟩
        · obtain ⟨u, hu⟩ := hprefix
          exact ⟨u, by rw [List.append_assoc, hu, List.take_append_drop]⟩
        · rw [hall h, List.take_append_drop]

/-- Only a prefix of the message goes out, and all of it on success. -/
theorem sendExt_spec {write : Write} {data : Text} (hwrite : Takes write data.length) {fuel : Nat}
    (hfuel : data.length < fuel) :
    ∃ ret sent, sendExt write fuel data true = some (ret, sent) ∧ sent <+: frame data ∧
      (ret = .succeed → sent = frame data) := by
  simp only [sendExt, if_true]
  cases hh : write 0 header with
  | none => exact ⟨.fail, [], rfl, List.nil_prefix, fun h => by cases h⟩
  | some n =>
    obtain rfl := hwrite.head n hh
    cases hl : write 1 (leBytes 8 data.length) with
    | none =>
      refine ⟨.fail, header, rfl, List.prefix_append _ _, fun h => by cases h⟩
    | some m =>
      obtain rfl := hwrite.length m hl
      have hhead : header.take header.length = header := List.take_length
      have hlen : (leBytes 8 data.length).take 8 = leBytes 8 data.length :=
        List.take_of_length_le (Nat.le_of_eq (leBytes_length 8 _))
      obtain ⟨ret, t, hsend, hprefix, hall⟩ := sendLoop_spec hwrite 2 (header ++ leBytes 8 data.length) hfuel
      refine ⟨ret, header ++ leBytes 8 data.length ++ t, ?_, ?_, fun h => ?_⟩
      · dsimp only
        rw [hhead, hlen]
        exact hsend
      · obtain ⟨u, hu⟩ := hprefix
        exact ⟨u, by rw [frame, List.append_assoc, hu, List.append_assoc]⟩
      · rw [hall h, frame, List.append_assoc]

/-- The header and the length are not torn on the way. -/
def Untorn (w : Wire) : Prop :=
  ∃ t w₁ l w₂, w.read header.length = (some t, w₁) ∧ t.length = header.length ∧ w₁.read 8 = (some l, w₂) ∧ l.length = 8

theorem read_gives {w w' : Wire} {n : Nat} {t : Text} (hw : [] ∉ w.pieces) (hn : 0 < n)
    (h : w.read n = (some t, w')) : w.Gives t w' := by
  obtain ⟨hnone, hread⟩ | ⟨u, w'', hread, -, -, hgives⟩ := Wire.read_spec hw hn
  · rw [hread] at h
    obtain ⟨hval, rfl⟩ := Prod.mk.inj h
    split at hval
    · cases hval
    · obtain rfl := Option.some.inj hval
      exact Wire.gives_nil hw
  · rw [hread] at h
    obtain ⟨hval, rfl⟩ := Prod.mk.inj h
    obtain rfl := Option.some.inj hval
    exact hgives

/-- Whatever pieces a message is written and read in, and however much of it
arrives behind its length: the receiver has what has arrived, and has left
nothing. It fails when the connection breaks before the end, and only then:
where the connection is closed instead, the part is taken for the message. -/
theorem message_delivered {write : Write} {data : Text} (hwrite : Takes write data.length)
    (hsmall : data.length ≤ maxRecvDataSize) (hnul : 0 ∉ data) {fuel : Nat} (hfuel : data.length < fuel) {ret : Ret}
    {sent : Text} (hsent : sendExt write fuel data true = some (ret, sent)) {w : Wire} (hw : [] ∉ w.pieces)
    (hbytes : w.bytes <+: sent) (huntorn : Untorn w) (garbage : Text) (untilClose : Bool) :
    ∃ r, recvExt garbage untilClose fuel w = some r ∧ r.data <+: data ∧ r.wire.bytes = [] ∧
      r.total = (if r.data ≠ data ∧ w.broken then none else some (header.length + r.data.length)) ∧
      (ret = .succeed → w.bytes = sent → r.data = data) := by
  obtain ⟨ret', sent', hsend, hprefix, hall⟩ := sendExt_spec hwrite hfuel
  obtain ⟨rfl, rfl⟩ := Prod.mk.inj (Option.some.inj (hsend.symm.trans hsent))
  obtain ⟨u, hu⟩ := hbytes.trans hprefix
  obtain ⟨t, w₁, l, w₂, hread, ht, hread', hl⟩ := huntorn
  have hgives := read_gives hw (by decide) hread
  have hgives' := read_gives hgives.pieces (by decide) hread'
  have hsplit : t ++ (l ++ (w₂.bytes ++ u)) = header ++ (leBytes 8 data.length ++ data) := by
    have hframe : header ++ (leBytes 8 data.length ++ data) = frame data := rfl
    rw [hframe, ← hu, ← hgives.bytes, ← hgives'.bytes]
    simp only [List.append_assoc]
  obtain ⟨rfl, hrest⟩ := List.append_inj hsplit ht
  obtain ⟨rfl, hbody⟩ := List.append_inj hrest (by rw [hl, leBytes_length])
  have harrived : w₂.bytes <+: data := ⟨u, hbody⟩
  have hlen := harrived.length_le
  obtain ⟨r, hr, hspec⟩ := recvExt_spec garbage untilClose ⟨hsmall, w₁, hread, hread'⟩ hgives'.pieces
    (fun h => hnul (harrived.subset h)) (show w₂.bytes.length < fuel by omega)
  have hcount := congrArg List.length hspec.gives.bytes
  have henough := hspec.enough
  rw [List.length_append] at hcount
  rw [Nat.min_eq_right hlen] at henough
  have hempty : r.wire.bytes = [] := List.length_eq_zero_iff.1 (by omega)
  have hdata : r.data = w₂.bytes := by
    have h := hspec.gives.bytes
    rwa [hempty, List.append_nil] at h
  have hpart : r.data ≠ data ↔ r.data.length < data.length := by
    rw [hdata]
    constructor
    · intro hne
      exact Nat.lt_of_le_of_ne hlen fun heq => hne (harrived.eq_of_length heq)
    · intro hlt heq
      rw [heq] at hlt
      omega
  refine ⟨r, hr, hdata ▸ harrived, hempty, ?_, fun hok hsame => ?_⟩
  · rw [hspec.total, hgives'.broken, hgives.broken]
    simp only [hpart]
  · have hframe : w.bytes = frame data := hsame.trans (hall hok)
    rw [hframe] at hu
    obtain rfl : u = [] := by simpa using hu
    rw [hdata, ← hbody, List.append_nil]

/-- Two bytes, one for a call. -/
def sampleWrite : Write := fun call rest => some (if call < 2 then rest.length else 1)

theorem sampleWrite_takes : Takes sampleWrite 2 where
  head h hh := (Option.some.inj hh).symm
  length l hl := (Option.some.inj hl).symm
  some call rest i hrest hi := by
    have hpos := List.length_pos_iff.2 hrest
    obtain rfl := Option.some.inj hi
    split
    · exact hpos
    · exact Nat.one_pos

def sampleWire : Wire := ⟨[header ++ [2, 0, 0, 0, 0, 0, 0, 0, 0x7b], [0x7d]], true⟩

theorem message_delivered_sample :
    ∃ r, recvExt [] false 3 sampleWire = some r ∧ r.data <+: [0x7b, 0x7d] ∧ r.wire.bytes = [] ∧
      r.total = (if r.data ≠ [0x7b, 0x7d] ∧ true then none else some (header.length + r.data.length)) ∧
      (Ret.succeed = .succeed → sampleWire.bytes = frame [0x7b, 0x7d] → r.data = [0x7b, 0x7d]) :=
  message_delivered sampleWrite_takes (by decide) (by decide) (by decide) rfl (by decide) (List.prefix_refl _)
    ⟨_, _, _, _, rfl, rfl, rfl, rfl⟩ [] false

/-- A torn header is taken for a message of its own. -/
example : (recvExt [] false 3 ⟨[header.take 2, header.drop 2], false⟩).map (fun r => (r.total, r.data)) =
    some (some 2, [0x5a, 0x42]) := rfl

end JobArranger.Comms
