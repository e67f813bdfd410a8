import JobArranger.L7Input.ZbxJson

/-!
# Writing JSON (`libs/zbxjson/json.c`)

The writer keeps one buffer and the offset at which the next member goes in.
An object is written with its closing bracket at once, and the members are
put in before it. Each function first computes how many bytes it is going to
write, moves the tail of the buffer by as many and writes into the gap. The
text is indented with line feeds and tabs, which the reader does not know:
`zbx_json_open` first takes out the white space between tokens, in place.

* `stringSize_eq`: the computed sizes are those of what is written.
* `Writer.At.write`: the calls that write a tree of members.
* `compact_pretty`: what `zbx_json_open` makes of the text.
* `json_round_trip`: every member, at any depth, is read as it was written.
-/
namespace JobArranger.ZbxJson

open JsonText
open Agent (cString)
open Agent.JobDb (digits_head)

/-! ## Strings -/

/-- mirrors src/libs/zbxcommon/str.c:1845-1851 -/
def num2hex (c : UInt8) : UInt8 := if 10 ≤ c then c + 0x57 else c + 0x30

/-- One round of `__zbx_json_insstring`. -/
def insByte (b : UInt8) : Text :=
  if b = 0x22 ∨ b = 0x5c ∨ b = 0x2f then [0x5c, b]
  else if b = 8 then [0x5c, 0x62]
  else if b = 12 then [0x5c, 0x66]
  else if b = 10 then [0x5c, 0x6e]
  else if b = 13 then [0x5c, 0x72]
  else if b = 9 then [0x5c, 0x74]
  else if b < 32 then [0x5c, 0x75, 0x30, 0x30, num2hex (b >>> 4 &&& 0xf), num2hex (b &&& 0xf)]
  else [b]

/-- The quotes of a string that is not `NULL` and of type
`ZBX_JSON_TYPE_STRING`. -/
def quotes (string : Option Text) (quote : Bool) : Text := if string.isSome && quote then [0x22] else []

/-- mirrors src/libs/zbxjson/json.c:184-244 -/
def insString (string : Option Text) (quote : Bool) : Text :=
  quotes string quote ++ ((string.getD (ascii "null")).flatMap insByte ++ quotes string quote)

/-- One round of `__zbx_json_stringsize`. -/
def byteSize (b : UInt8) : Nat :=
  if b = 0x22 ∨ b = 0x5c ∨ b = 0x2f ∨ b = 8 ∨ b = 12 ∨ b = 10 ∨ b = 13 ∨ b = 9 then 2
  else if b < 32 then 6
  else 1

/-- mirrors src/libs/zbxjson/json.c:151-182 -/
def stringSize (string : Option Text) (quote : Bool) : Nat :=
  ((string.getD (ascii "null")).map byteSize).sum + if string.isSome && quote then 2 else 0

/-! ## The writer -/

/-- `struct zbx_json`; `buffer` is the text up to its NUL, `comma` is
`status == ZBX_JSON_COMMA`. -/
structure Writer where
  buffer : Text
  allocated : Nat
  offset : Nat
  size : Nat
  comma : Bool
  level : Nat

/-- mirrors src/libs/zbxjson/json.c:98-105 -/
def grow (need allocated : Nat) : Nat :=
  if allocated < need then grow need (if allocated = 0 then 1024 else 2 * allocated) else allocated
termination_by need - allocated
decreasing_by split <;> omega

/-- The tail moves by `len`, and `written` goes into the gap. What `memmove`
leaves in the gap is not looked at here. -/
def Writer.insert (j : Writer) (len : Nat) (written : Text) : Writer :=
  let moved := j.buffer.take j.offset ++ (List.replicate len 0 ++ j.buffer.drop j.offset)
  { j with
    buffer := moved.take j.offset ++ (written ++ moved.drop (j.offset + written.length))
    allocated := grow (j.size + len + 1) j.allocated
    size := j.size + len }

/-- What stands in front of the brackets of an object. -/
def Writer.objectHead (j : Writer) (name : Option Text) : Text :=
  (if j.comma then [0x2c] else []) ++ ((if j.level ≠ 0 then [0x0a] else []) ++
    (List.replicate j.level 0x09 ++ name.elim [] (fun n => insString (some n) true ++ [0x3a])))

/-- mirrors src/libs/zbxjson/json.c:246-296 -/
def Writer.addObject (j : Writer) (name : Option Text) (object : Bool) : Writer :=
  let len := 2 + (if j.comma then 1 else 0) + (if j.level ≠ 0 then 1 else 0) + j.level +
    name.elim 0 (fun n => stringSize (some n) true + 1)
  let written := j.objectHead name ++ (if object then [0x7b, 0x7d] else [0x5b, 0x5d])
  { j.insert len written with offset := j.offset + written.length - 1, level := j.level + 1, comma := false }

/-- mirrors src/libs/zbxjson/json.c:308-352 -/
def Writer.addString (j : Writer) (name string : Option Text) (quote : Bool) : Writer :=
  let len := (if j.comma then 1 else 0) + name.elim 0 (fun n => 1 + j.level + stringSize (some n) true + 1) +
    stringSize string quote
  let written := (if j.comma then [0x2c] else []) ++ (name.elim [] (fun n =>
    0x0a :: (List.replicate j.level 0x09 ++ (insString (some n) true ++ [0x3a]))) ++ insString string quote)
  { j.insert len written with offset := j.offset + written.length, comma := true }

/-- mirrors src/libs/zbxjson/json.c:354-360 -/
def Writer.addUint64 (j : Writer) (name : Text) (value : UInt64) : Writer :=
  j.addString (some name) (some (Sql.digits value.toNat)) false

/-- mirrors src/libs/zbxjson/json.c:362-375 -/
def Writer.close (j : Writer) : Ret × Writer :=
  if j.level = 1 then (.fail, j)
  else (.succeed, { j with level := j.level - 1, offset := j.offset + 1, comma := true })

/-- `ZBX_JSON_STAT_BUF_LEN` (include/zbxjson.h:101). -/
def zbxJsonStatBufLen : Nat := 4096

/-- mirrors src/libs/zbxjson/json.c:117-131 -/
def zbxJsonInit (allocate : Nat) : Writer :=
  Writer.addObject ⟨[], if zbxJsonStatBufLen < allocate then allocate else zbxJsonStatBufLen, 0, 0, false, 0⟩ none true

/-! ## Members -/

/-- The calls that write the members of an object, in their order; an
inner object is opened, filled and closed. -/
inductive Fields where
  | nil
  | string (name : Text) (value : Option Text) (rest : Fields)
  | uint64 (name : Text) (value : UInt64) (rest : Fields)
  | object (name : Text) (inner rest : Fields)
  deriving DecidableEq, Repr

def Fields.write : Fields → Writer → Writer
  | .nil, j => j
  | .string name value rest, j => rest.write (j.addString (some name) value true)
  | .uint64 name value rest, j => rest.write (j.addUint64 name value)
  | .object name inner rest, j => rest.write (inner.write (j.addObject (some name) true)).close.2

def zbxJson (allocate : Nat) (fields : Fields) : Text := (fields.write (zbxJsonInit allocate)).buffer

/-! ## Opening the text -/

/-- `ZBX_WHITESPACE` (include/common.h:804). -/
def isWhite (b : UInt8) : Bool := b == 0x20 || b == 0x09 || b == 0x0d || b == 0x0a

/-- The loop of `zbx_json_open`; the byte behind a backslash is not looked at
as a quote. mirrors src/libs/zbxjson/json.c:516-535 -/
def compact (inString : Bool) : Text → Text
  | [] => []
  | b :: p =>
    if b = 0x5c then
      match p with
      | [] => [0x5c]
      | c :: p => if inString || !isWhite c then 0x5c :: c :: compact inString p else 0x5c :: compact inString p
    else if b = 0x22 then 0x22 :: compact (!inString) p
    else if inString || !isWhite b then b :: compact inString p
    else compact inString p

/-- mirrors src/libs/zbxjson/json.c:501-548 -/
def zbxJsonOpen (buffer : Text) : Option JsonParse :=
  let buffer := buffer.dropWhile isWhite
  if buffer.head? = some 0x7b then
    let text := compact false buffer
    (jsonRbracket text).bind fun stop => if stop.length = 1 then some ⟨text, stop⟩ else none
  else none

/-! ## Sizes -/

theorem insByte_length (b : UInt8) : (insByte b).length = byteSize b :=
  Utf8.forall_byte (P := fun b => (insByte b).length = byteSize b) (by decide +kernel) b

theorem stringSize_eq (string : Option Text) (quote : Bool) :
    (insString string quote).length = stringSize string quote := by
  have hbytes : ∀ t : Text, (t.flatMap insByte).length = (t.map byteSize).sum := by
    intro t
    induction t with
    | nil => rfl
    | cons b t ih => simp [insByte_length, ih]
  simp only [insString, stringSize, quotes, List.length_append, hbytes]
  cases string.isSome && quote
  · simp
  · simp only [if_true, List.length_singleton]
    omega

theorem le_grow (need allocated : Nat) : need ≤ grow need allocated := by
  induction allocated using grow.induct need with
  | case1 a h ih =>
    rw [grow, if_pos h]
    exact ih
  | case2 a h =>
    rw [grow, if_neg h]
    omega

/-- The writer with `before` in front of its offset and `after` behind it. -/
structure Writer.At (j : Writer) (before after : Text) : Prop where
  buffer : j.buffer = before ++ after
  offset : j.offset = before.length
  size : j.size = (before ++ after).length
  room : (before ++ after).length < j.allocated

theorem Writer.At.insert {j : Writer} {before after : Text} (h : j.At before after) {len : Nat} {written : Text}
    (hlen : written.length = len) :
    (j.insert len written).buffer = before ++ (written ++ after) ∧
      (j.insert len written).size = (before ++ (written ++ after)).length ∧
      (before ++ (written ++ after)).length < (j.insert len written).allocated := by
  have hmove : j.buffer.take j.offset ++ (List.replicate len 0 ++ j.buffer.drop j.offset) =
      before ++ (List.replicate len 0 ++ after) := by
    rw [h.buffer, h.offset, List.take_left, List.drop_left]
  have hdrop : (before ++ (List.replicate len 0 ++ after)).drop (j.offset + written.length) = after := by
    rw [h.offset, hlen, ← List.drop_drop, List.drop_left]
    exact List.drop_left' (by simp)
  refine ⟨?_, ?_, ?_⟩
  · simp only [Writer.insert, hmove, hdrop]
    rw [h.offset, List.take_left]
  · simp only [Writer.insert, h.size, List.length_append, hlen]
    omega
  · have hle := le_grow (j.size + len + 1) j.allocated
    simp only [Writer.insert, List.length_append, hlen]
    rw [h.size, List.length_append] at hle ⊢
    omega

/-! ## The text that is written -/

def separator (comma : Bool) : Text := if comma then [0x2c] else []

/-- What stands in front of a value. -/
def label (level : Nat) (name : Text) : Text :=
  0x0a :: (List.replicate level 0x09 ++ (insString (some name) true ++ [0x3a]))

/-- The members of an object, indented. -/
def Fields.pretty (level : Nat) (comma : Bool) : Fields → Text
  | .nil => []
  | .string name value rest =>
    separator comma ++ (label level name ++ (insString value true ++ rest.pretty level true))
  | .uint64 name value rest =>
    separator comma ++ (label level name ++ (insString (some (Sql.digits value.toNat)) false ++ rest.pretty level true))
  | .object name inner rest =>
    separator comma ++ (label level name ++
      (0x7b :: (inner.pretty (level + 1) false ++ 0x7d :: rest.pretty level true)))

/-- The writer inside an object at `level`. -/
structure Writer.In (j : Writer) (before after : Text) (level : Nat) (comma : Bool) : Prop where
  at_ : j.At before after
  level : j.level = level
  comma : j.comma = comma

section
variable {j : Writer} {before after : Text} {level : Nat} {comma : Bool}

theorem separator_length (comma : Bool) : (separator comma).length = if comma then 1 else 0 := by
  cases comma <;> rfl

theorem label_length (level : Nat) (name : Text) :
    (label level name).length = 1 + level + stringSize (some name) true + 1 := by
  simp only [label, List.length_cons, List.length_append, List.length_replicate, stringSize_eq, List.length_nil]
  omega

theorem Writer.In.addString (h : j.In before after level comma) (name : Text) (value : Option Text) (quote : Bool) :
    (j.addString (some name) value quote).In
      (before ++ (separator comma ++ (label level name ++ insString value quote))) after level true := by
  obtain ⟨hat, rfl, rfl⟩ := h
  have hlen : (separator j.comma ++ (label j.level name ++ insString value quote)).length =
      (if j.comma then 1 else 0) + (1 + j.level + stringSize (some name) true + 1) + stringSize value quote := by
    simp only [List.length_append, separator_length, label_length, stringSize_eq]
    omega
  obtain ⟨hbuffer, hsize, hroom⟩ := hat.insert hlen
  refine ⟨⟨?_, ?_, ?_, ?_⟩, rfl, rfl⟩
  · rw [List.append_assoc]
    exact hbuffer
  · rw [List.length_append, ← hat.offset]
    rfl
  · rw [List.append_assoc]
    exact hsize
  · rw [List.append_assoc]
    exact hroom

theorem Writer.objectHead_some (hlevel : j.level ≠ 0) (name : Text) :
    j.objectHead (some name) = separator j.comma ++ label j.level name := by
  simp [objectHead, separator, label, hlevel]

theorem Writer.In.addObject (h : j.In before after level comma) (hlevel : level ≠ 0) (name : Text) :
    (j.addObject (some name) true).In (before ++ (separator comma ++ (label level name ++ [0x7b]))) (0x7d :: after)
      (level + 1) false := by
  obtain ⟨hat, rfl, rfl⟩ := h
  have hwritten : j.objectHead (some name) ++ [0x7b, 0x7d] =
      separator j.comma ++ (label j.level name ++ [0x7b]) ++ [0x7d] := by
    simp [Writer.objectHead_some hlevel]
  have hlen : (j.objectHead (some name) ++ [0x7b, 0x7d]).length =
      2 + (if j.comma then 1 else 0) + (if j.level ≠ 0 then 1 else 0) + j.level +
        (stringSize (some name) true + 1) := by
    rw [hwritten]
    simp only [if_pos hlevel, List.length_append, separator_length, label_length, List.length_singleton]
    omega
  have hoffset : (j.addObject (some name) true).offset =
      j.offset + (j.objectHead (some name) ++ [0x7b, 0x7d]).length - 1 := rfl
  obtain ⟨hbuffer, hsize, hroom⟩ := hat.insert hlen
  have htext : before ++ (j.objectHead (some name) ++ [0x7b, 0x7d] ++ after) =
      before ++ (separator j.comma ++ (label j.level name ++ [0x7b])) ++ 0x7d :: after := by
    simp [hwritten]
  rw [htext] at hbuffer hsize hroom
  refine ⟨⟨hbuffer, ?_, hsize, hroom⟩, rfl, rfl⟩
  rw [hoffset, hwritten, hat.offset]
  simp only [List.length_append, List.length_singleton]
  omega

theorem Writer.In.close {b : UInt8} (h : j.In before (b :: after) (level + 1) comma) (hlevel : level ≠ 0) :
    j.close.2.In (before ++ [b]) after level true := by
  obtain ⟨hat, hl, -⟩ := h
  have hopen : j.level ≠ 1 := by omega
  have hassoc : before ++ [b] ++ after = before ++ b :: after := by simp
  rw [Writer.close, if_neg hopen]
  refine ⟨⟨?_, ?_, ?_, ?_⟩, ?_, rfl⟩
  · rw [hassoc]
    exact hat.buffer
  · simp [hat.offset]
  · rw [hassoc]
    exact hat.size
  · rw [hassoc]
    exact hat.room
  · simp [hl]

/-- The calls write the members, and leave the writer behind them. -/
theorem Fields.write_in (fields : Fields) (h : j.In before after level comma) (hlevel : level ≠ 0) :
    ∃ comma', (fields.write j).In (before ++ fields.pretty level comma) after level comma' := by
  induction fields generalizing j before after level comma with
  | nil => exact ⟨comma, by simpa [Fields.write, Fields.pretty] using h⟩
  | string name value rest ih =>
    have hnext := ih (h.addString name value true) hlevel
    simpa [Fields.write, Fields.pretty] using hnext
  | uint64 name value rest ih =>
    have hnext := ih (h.addString name (some (Sql.digits value.toNat)) false) hlevel
    simpa [Fields.write, Fields.pretty, Writer.addUint64] using hnext
  | object name inner rest ihInner ihRest =>
    obtain ⟨_, hinner⟩ := ihInner (h.addObject hlevel name) (Nat.succ_ne_zero level)
    have hnext := ihRest (hinner.close hlevel) hlevel
    simpa [Fields.write, Fields.pretty] using hnext

end

theorem zbxJsonInit_in (allocate : Nat) : (zbxJsonInit allocate).In [0x7b] [0x7d] 1 false := by
  have hroom : 2 < (zbxJsonInit allocate).allocated := by
    have hle := le_grow 3 (if zbxJsonStatBufLen < allocate then allocate else zbxJsonStatBufLen)
    exact hle
  exact ⟨⟨rfl, rfl, rfl, hroom⟩, rfl, rfl⟩

theorem zbxJson_eq (allocate : Nat) (fields : Fields) :
    zbxJson allocate fields = 0x7b :: (fields.pretty 1 false ++ [0x7d]) := by
  obtain ⟨_, h⟩ := fields.write_in (zbxJsonInit_in allocate) (by decide)
  rw [zbxJson, h.at_.buffer]
  simp

/-! ## The text without white space -/

/-- A byte in a string, as the writer puts it. -/
def item (b : UInt8) : Item :=
  if b = 0x22 then .esc .quote
  else if b = 0x5c then .esc .backslash
  else if b = 0x2f then .esc .slash
  else if b = 8 then .esc .b
  else if b = 12 then .esc .f
  else if b = 10 then .esc .n
  else if b = 13 then .esc .r
  else if b = 9 then .esc .t
  else if b < 32 then
    .uni ⟨0, false⟩ ⟨0, false⟩ ⟨Fin.ofNat 16 (b.toNat / 16), false⟩ ⟨Fin.ofNat 16 b.toNat, false⟩
  else if h : Raw b then .raw b h
  else .esc .quote

def items (t : Text) : List Item := t.map item

theorem insByte_item (b : UInt8) : insByte b = (item b).source :=
  Utf8.forall_byte (P := fun b => insByte b = (item b).source) (by decide +kernel) b

theorem itemByte_item (b : UInt8) : itemByte (item b) = b :=
  Utf8.forall_byte (P := fun b => itemByte (item b) = b) (by decide +kernel) b

theorem decoded_items (t : Text) : decoded (items t) = t := by
  have hid : itemByte ∘ item = id := funext itemByte_item
  rw [decoded, items, List.map_map, hid, List.map_id]

theorem insString_some (t : Text) : insString (some t) true = quoted (items t) := by
  have hbytes : t.flatMap insByte = source (items t) := by
    rw [source, items, List.flatMap_map]
    exact congrArg t.flatMap (funext insByte_item)
  simp [insString, quotes, quoted, hbytes]

/-- A byte that `zbx_json_open` leaves alone outside strings. -/
def Solid (b : UInt8) : Prop := b ≠ 0x5c ∧ b ≠ 0x22 ∧ isWhite b = false

instance (b : UInt8) : Decidable (Solid b) := by unfold Solid; exact inferInstance

theorem compact_solid {b : UInt8} (hb : Solid b) (p : Text) : compact false (b :: p) = b :: compact false p := by
  obtain ⟨hback, hquote, hwhite⟩ := hb
  rw [compact.eq_def]
  simp [hback, hquote, hwhite]

theorem compact_solids {t : Text} (ht : ∀ b ∈ t, Solid b) (p : Text) : compact false (t ++ p) = t ++ compact false p := by
  induction t with
  | nil => rfl
  | cons b t ih =>
    rw [List.cons_append, compact_solid (ht b List.mem_cons_self), ih fun b hb => ht b (List.mem_cons_of_mem _ hb)]
    rfl

theorem compact_white {b : UInt8} (hb : isWhite b = true) (p : Text) : compact false (b :: p) = compact false p := by
  have hback : b ≠ 0x5c := fun h => by simp [h, isWhite] at hb
  have hquote : b ≠ 0x22 := fun h => by simp [h, isWhite] at hb
  rw [compact.eq_def]
  simp [hback, hquote, hb]

theorem compact_tabs (n : Nat) (p : Text) : compact false (List.replicate n 0x09 ++ p) = compact false p := by
  induction n with
  | zero => rfl
  | succ n ih => rw [List.replicate_succ, List.cons_append, compact_white rfl, ih]

theorem compact_raw {b : UInt8} (hb : Raw b) (p : Text) : compact true (b :: p) = b :: compact true p := by
  rw [compact.eq_def]
  simp [hb.2.1, hb.2.2]

theorem compact_source (s : List Item) (p : Text) : compact true (source s ++ p) = source s ++ compact true p := by
  induction s with
  | nil => rfl
  | cons i s ih =>
    have hitem : ∀ t, compact true (i.source ++ t) = i.source ++ compact true t := by
      intro t
      cases i with
      | raw b hb => exact compact_raw hb t
      | esc e =>
        change compact true (0x5c :: e.letter :: t) = _
        rw [compact.eq_def]
        simp [Item.source]
      | uni a b c d =>
        change compact true (0x5c :: 0x75 :: a.byte :: b.byte :: c.byte :: d.byte :: t) = _
        rw [compact.eq_def]
        simp [Item.source, compact_raw (hexByte_raw _)]
    rw [source, List.flatMap_cons, List.append_assoc, ← source, hitem, ih, List.append_assoc]

theorem compact_quoted (s : List Item) (p : Text) : compact false (quoted s ++ p) = quoted s ++ compact false p := by
  have hquote : ∀ (inString : Bool) (t : Text), compact inString (0x22 :: t) = 0x22 :: compact (!inString) t := by
    intro inString t
    rw [compact.eq_def]
    simp
  rw [quoted_append, quoted_append, hquote, Bool.not_false, compact_source, hquote, Bool.not_true]

def digitsNumber (n : Nat) : Number where
  head := (Sql.digits n).headD 0x30
  tail := (Sql.digits n).tail
  starts := by
    obtain ⟨b, ds, hds⟩ := List.exists_cons_of_ne_nil (Sql.digits_ne_nil n)
    have hb : Sql.isDigit b = true := Sql.isDigit_of_mem_digits (n := n) (by simp [hds])
    rw [hds]
    simpa [numberHead, Sql.isDigit] using Or.inl hb
  bytes := by
    refine List.all_eq_true.2 fun b hb => ?_
    have hb : Sql.isDigit b = true := Sql.isDigit_of_mem_digits (List.mem_of_mem_tail hb)
    simp only [numberByte, numberHead]
    simp only [Sql.isDigit] at hb
    simp [hb]

theorem digitsNumber_source (n : Nat) : (Value.number (digitsNumber n)).source = Sql.digits n := by
  obtain ⟨b, ds, hds⟩ := List.exists_cons_of_ne_nil (Sql.digits_ne_nil n)
  simp [Value.source, digitsNumber, hds]

/-- The members as JSON. -/
def Fields.members : Fields → List Member
  | .nil => []
  | .string name (some value) rest => ⟨items name, .string (items value)⟩ :: rest.members
  | .string name none rest => ⟨items name, .word .null⟩ :: rest.members
  | .uint64 name value rest => ⟨items name, .number (digitsNumber value.toNat)⟩ :: rest.members
  | .object name inner rest => ⟨items name, .object inner.members⟩ :: rest.members

theorem insString_digits (n : Nat) : insString (some (Sql.digits n)) false = Sql.digits n := by
  have hplain : ∀ b : UInt8, Sql.isDigit b = true → insByte b = [b] :=
    Utf8.forall_byte (P := fun b => Sql.isDigit b = true → insByte b = [b]) (by decide +kernel)
  have hbytes : ∀ t : Text, (∀ b ∈ t, Sql.isDigit b = true) → t.flatMap insByte = t := by
    intro t ht
    induction t with
    | nil => rfl
    | cons b t ih =>
      rw [List.flatMap_cons, hplain b (ht b List.mem_cons_self), ih fun b hb => ht b (List.mem_cons_of_mem _ hb)]
      rfl
  simp [insString, quotes, hbytes _ fun b hb => Sql.isDigit_of_mem_digits hb]

theorem digits_solid (n : Nat) : ∀ b ∈ Sql.digits n, Solid b := by
  have hdigit : ∀ b : UInt8, Sql.isDigit b = true → Solid b :=
    Utf8.forall_byte (P := fun b => Sql.isDigit b = true → Solid b) (by decide +kernel)
  exact fun b hb => hdigit b (Sql.isDigit_of_mem_digits hb)

theorem compact_label (level : Nat) (name p : Text) :
    compact false (label level name ++ p) = quoted (items name) ++ 0x3a :: compact false p := by
  have htext : label level name ++ p =
      0x0a :: (List.replicate level 0x09 ++ (quoted (items name) ++ 0x3a :: p)) := by
    simp [label, insString_some]
  rw [htext, compact_white rfl, compact_tabs, compact_quoted, compact_solid (by decide)]

theorem compact_separator (comma : Bool) (p : Text) :
    compact false (separator comma ++ p) = separator comma ++ compact false p := by
  cases comma
  · rfl
  · exact compact_solid (by decide) p

/-- The members behind what stands there already. -/
def rows (comma : Bool) (ms : List Member) : Text := if comma then more ms else members ms

theorem rows_cons (comma : Bool) (m : Member) (ms : List Member) :
    rows comma (m :: ms) = separator comma ++ (m.source ++ rows true ms) := by
  cases comma <;> simp [rows, more, members, separator]

theorem compact_pretty (fields : Fields) (level : Nat) (comma : Bool) (p : Text) :
    compact false (fields.pretty level comma ++ p) = rows comma fields.members ++ compact false p := by
  induction fields generalizing level comma p with
  | nil => cases comma <;> rfl
  | string name value rest ih =>
    cases value with
    | some value =>
      simp only [Fields.pretty, Fields.members, rows_cons, List.append_assoc, compact_separator, compact_label,
        insString_some, compact_quoted, ih]
      simp [Member.source, Value.source]
    | none =>
      have hnull : insString none true = Word.source .null := rfl
      have hsolid : ∀ b ∈ Word.source .null, Solid b := by simp [Word.source, Solid, isWhite]
      simp only [Fields.pretty, Fields.members, rows_cons, List.append_assoc, compact_separator, compact_label,
        hnull, compact_solids hsolid, ih]
      simp [Member.source, Value.source]
  | uint64 name value rest ih =>
    simp only [Fields.pretty, Fields.members, rows_cons, List.append_assoc, compact_separator, compact_label,
      insString_digits, compact_solids (digits_solid value.toNat), ih, Member.source, digitsNumber_source]
    simp
  | object name inner rest ihInner ihRest =>
    have hopen : ∀ t, compact false (0x7b :: t) = 0x7b :: compact false t := compact_solid (by decide)
    have hclose : ∀ t, compact false (0x7d :: t) = 0x7d :: compact false t := compact_solid (by decide)
    simp only [Fields.pretty, Fields.members, rows_cons, List.append_assoc, List.cons_append, compact_separator,
      compact_label, hopen, ihInner, hclose, ihRest]
    simp [Member.source, Value.source, Value.object, Bracket.left, Bracket.right, rows]

/-- White space outside of strings makes no difference. -/
theorem zbxJsonOpen_object {text : Text} {ms : List Member} (h : compact false text = object ms) :
    zbxJsonOpen text = some (opened ms []) := by
  have hdrop : compact false (text.dropWhile isWhite) = object ms := by
    rw [← h]
    clear h
    induction text with
    | nil => rfl
    | cons b t ih =>
      rw [List.dropWhile_cons]
      split
      · rename_i hb
        rw [ih, compact_white hb]
      · rfl
  have hfirst : (text.dropWhile isWhite).head? = some 0x7b := by
    cases hd : text.dropWhile isWhite with
    | nil =>
      rw [hd] at hdrop
      cases hdrop
    | cons b p =>
      have hb : isWhite b = false := by simpa [hd] using List.head?_dropWhile_not isWhite text
      rw [hd, compact.eq_def] at hdrop
      dsimp only at hdrop
      split at hdrop
      · cases p with
        | nil => cases hdrop
        | cons c p =>
          dsimp only at hdrop
          split at hdrop
          · cases hdrop
          · cases hdrop
      · split at hdrop
        · cases hdrop
        · rw [hb] at hdrop
          exact congrArg some (List.cons.inj hdrop).1
  have hbracket : jsonRbracket (object ms) = some [0x7d] := by
    have h := zbxJsonBracketsOpen_object ms []
    rw [List.append_nil, zbxJsonBracketsOpen, Option.map_eq_some_iff] at h
    obtain ⟨stop, hstop, heq⟩ := h
    rw [hstop, (JsonParse.mk.inj heq).2]
  simp [zbxJsonOpen, hfirst, hdrop, hbracket, opened]

theorem compact_zbxJson (allocate : Nat) (fields : Fields) :
    compact false (zbxJson allocate fields) = object fields.members := by
  have hopen : ∀ t, compact false (0x7b :: t) = 0x7b :: compact false t := compact_solid (by decide)
  have hend : compact false [0x7d] = [0x7d] := compact_solid (by decide) []
  rw [zbxJson_eq, hopen, compact_pretty, hend]
  simp [rows, object]

/-- The text that was written, opened. -/
theorem zbxJsonOpen_zbxJson (allocate : Nat) (fields : Fields) :
    zbxJsonOpen (zbxJson allocate fields) = some (opened fields.members []) :=
  zbxJsonOpen_object (compact_zbxJson allocate fields)

/-! ## Reading the members -/

inductive FieldValue where
  | string (value : Option Text)
  | uint64 (value : UInt64)
  | object (inner : Fields)
  deriving DecidableEq, Repr

/-- The first member of a name. -/
def Fields.lookup (name : Text) : Fields → Option FieldValue
  | .nil => none
  | .string n value rest => if n = name then some (.string value) else rest.lookup name
  | .uint64 n value rest => if n = name then some (.uint64 value) else rest.lookup name
  | .object n inner rest => if n = name then some (.object inner) else rest.lookup name

def Fields.names : Fields → List Text
  | .nil => []
  | .string name _ rest => name :: rest.names
  | .uint64 name _ rest => name :: rest.names
  | .object name _ rest => name :: rest.names

/-- The object at a path of names. -/
def Fields.follow : List Text → Fields → Option Fields
  | [], fields => some fields
  | name :: path, fields =>
    match fields.lookup name with
    | some (.object inner) => inner.follow path
    | _ => none

/-- The lookups of a reader along a path. -/
def followJson : List Text → JsonParse → Option JsonParse
  | [], jp => some jp
  | name :: path, jp => ((zbxJsonPairByName jp name).bind zbxJsonBracketsOpen).bind (followJson path)

/-- Names of a `char[MAX_STRING_LEN]`, at every depth. -/
def Fields.Named : Fields → Prop
  | .nil => True
  | .string name _ rest => (0 ∉ name ∧ name.length < zbxMaxStringLen) ∧ rest.Named
  | .uint64 name _ rest => (0 ∉ name ∧ name.length < zbxMaxStringLen) ∧ rest.Named
  | .object name inner rest => (0 ∉ name ∧ name.length < zbxMaxStringLen) ∧ inner.Named ∧ rest.Named

/-- What `zbx_json_value_by_name` leaves of a value in a buffer of `len` bytes. -/
def readField (old : Text) (len : Nat) : Option FieldValue → Ret × Text
  | some (.string (some value)) => (.succeed, value.take (len - 1))
  | some (.string none) => (.succeed, [])
  | some (.uint64 value) => (.succeed, (Sql.digits value.toNat).take (len - 1))
  | _ => (.fail, old)

theorem decodeLoop_full {len : Nat} {out : Text} (h : len - 1 ≤ out.length) (p rest : Text) :
    ∃ q, decodeLoop len out (p ++ 0x22 :: rest) = (some q, out) := by
  induction p with
  | nil => exact ⟨rest, decodeLoop_quote⟩
  | cons b p ih =>
    rw [List.cons_append, decodeLoop.eq_def]
    by_cases hb : b = 0x22
    · exact ⟨_, if_pos hb⟩
    · simpa [hb, Nat.not_lt.2 h] using ih

/-- A string of any length: what fits is copied. -/
theorem decodeLoop_cut {len : Nat} (s : List Item) {out : Text} (h : out.length ≤ len - 1) (rest : Text) :
    ∃ q, decodeLoop len out (source s ++ 0x22 :: rest) = (some q, (out ++ decoded s).take (len - 1)) := by
  induction s generalizing out with
  | nil =>
    refine ⟨rest, ?_⟩
    rw [decoded, List.map_nil, List.append_nil, List.take_of_length_le h]
    exact decodeLoop_quote
  | cons i s ih =>
    have hsource : source (i :: s) ++ 0x22 :: rest = i.source ++ (source s ++ 0x22 :: rest) := by simp [source]
    have hdecoded : out ++ decoded (i :: s) = out ++ [itemByte i] ++ decoded s := by simp [decoded]
    by_cases hroom : out.length < len - 1
    · have hstep : decodeLoop len out (i.source ++ (source s ++ 0x22 :: rest)) =
          decodeLoop len (out ++ [itemByte i]) (source s ++ 0x22 :: rest) := by
        cases i with
        | raw b hb => exact decodeLoop_raw hb hroom
        | esc e => exact decodeLoop_esc e hroom
        | uni a b c d => exact decodeLoop_uni _ _ _ _ hroom
      rw [hsource, hstep, hdecoded]
      exact ih (by simpa using Nat.succ_le_of_lt hroom)
    · have hlen : out.length = len - 1 := by omega
      obtain ⟨q, hq⟩ := decodeLoop_full (Nat.le_of_eq hlen.symm) (source (i :: s)) rest
      exact ⟨q, by rw [hq, List.take_left' hlen]⟩

/-- A list of members that says what a tree says, whatever escapes are in its strings. -/
inductive Says : Fields → List Member → Prop where
  | nil : Says .nil []
  | string {name value : Text} {rest : Fields} {n s : List Item} {ms : List Member} (hn : decoded n = name)
      (hs : decoded s = value) (h : Says rest ms) : Says (.string name (some value) rest) (⟨n, .string s⟩ :: ms)
  | null {name : Text} {rest : Fields} {n : List Item} {ms : List Member} (hn : decoded n = name) (h : Says rest ms) :
      Says (.string name none rest) (⟨n, .word .null⟩ :: ms)
  | uint64 {name : Text} {value : UInt64} {rest : Fields} {n : List Item} {ms : List Member} (hn : decoded n = name)
      (h : Says rest ms) : Says (.uint64 name value rest) (⟨n, .number (digitsNumber value.toNat)⟩ :: ms)
  | object {name : Text} {inner rest : Fields} {n : List Item} {ms ms' : List Member} (hn : decoded n = name)
      (hi : Says inner ms') (h : Says rest ms) : Says (.object name inner rest) (⟨n, .object ms'⟩ :: ms)

theorem says_members (fields : Fields) : Says fields fields.members := by
  induction fields with
  | nil => exact .nil
  | string name value rest ih =>
    cases value with
    | none => exact .null (decoded_items name) ih
    | some value => exact .string (decoded_items name) (decoded_items value) ih
  | uint64 name value rest ih => exact .uint64 (decoded_items name) ih
  | object name inner rest ihInner ih => exact .object (decoded_items name) ihInner ih

/-- One value of such a member. -/
inductive SaysValue : FieldValue → Value → Prop where
  | string {value : Text} {s : List Item} (hs : decoded s = value) : SaysValue (.string (some value)) (.string s)
  | null : SaysValue (.string none) (.word .null)
  | uint64 (value : UInt64) : SaysValue (.uint64 value) (.number (digitsNumber value.toNat))
  | object {inner : Fields} {ms : List Member} (hi : Says inner ms) : SaysValue (.object inner) (.object ms)

theorem decodevalue_field {v : FieldValue} {w : Value} (hw : SaysValue v w) {t : Text} (ht : Behind t) (old : Text)
    (len : Nat) : zbxJsonDecodevalue (w.source ++ t) old len = readField old len (some v) := by
  cases hw with
  | @string value s hs =>
    have hout : ([] : Text).length ≤ len - 1 := Nat.zero_le _
    obtain ⟨q, hq⟩ := decodeLoop_cut s hout t
    have hdecode : decodeLoop len [] ((quoted s ++ t).drop 1) = (some q, value.take (len - 1)) := by
      rw [quoted_append, List.drop_succ_cons, List.drop_zero, hq, List.nil_append, hs]
    have htype := jsonType_string s t
    simp only [Value.source, zbxJsonDecodevalue, htype, hdecode, readField]
  | null => rfl
  | uint64 value =>
    obtain ⟨b, ds, hds⟩ := List.exists_cons_of_ne_nil (Sql.digits_ne_nil value.toNat)
    have hdigit : ∀ c ∈ Sql.digits value.toNat, intByte c = true := by
      intro c hc
      have hc : Sql.isDigit c = true := Sql.isDigit_of_mem_digits hc
      simp only [Sql.isDigit] at hc
      simp [intByte, isDigit, hc]
    have hb := hdigit b (by simp [hds])
    have htype : jsonType (Sql.digits value.toNat ++ t) = .int := by
      have hquote : b ≠ 0x22 := by
        intro h
        rw [h] at hb
        cases hb
      rw [intByte] at hb
      simp [hds, jsonType, hquote, hb]
    have hend : ∃ b u, t = b :: u ∧ intByte b = false := by
      obtain ⟨b, u, rfl, rfl | rfl⟩ := ht
      · exact ⟨_, u, rfl, rfl⟩
      · exact ⟨_, u, rfl, rfl⟩
    have hout : ([] : Text).length ≤ len - 1 := Nat.zero_le _
    have hdecode := decodeIntLoop_spec (x := Sql.digits value.toNat) hend hout
    rw [List.nil_append, List.takeWhile_eq_self_iff.2 hdigit] at hdecode
    simp only [digitsNumber_source, zbxJsonDecodevalue, htype, hdecode, readField]
  | object hi => rfl

section
variable {fields inner : Fields} {ms : List Member}

/-- The first member of a name, as the reader finds it. -/
theorem Says.find (hs : Says fields ms) (h : fields.Named) (name : Text) :
    Option.Rel (fun v (m : Member) => SaysValue v m.value) (fields.lookup name)
      (ms.find? fun m => name = cString (decoded m.name)) := by
  have hname : ∀ {n : List Item} {t : Text}, decoded n = t → 0 ∉ t → cString (decoded n) = t := by
    intro n t hn ht
    rw [hn]
    exact List.takeWhile_eq_self_iff.2 fun b hb => by simpa using fun h0 : b = 0 => ht (h0 ▸ hb)
  -- a member is the one that is found, or the search goes on behind it
  have hcons : ∀ {n : List Item} {t : Text} {w : Value} {ms : List Member} {v : FieldValue} {o : Option FieldValue},
      decoded n = t → 0 ∉ t → SaysValue v w →
      Option.Rel (fun v (m : Member) => SaysValue v m.value) o (ms.find? fun m => name = cString (decoded m.name)) →
      Option.Rel (fun v (m : Member) => SaysValue v m.value) (if t = name then some v else o)
        ((⟨n, w⟩ :: ms).find? fun m => name = cString (decoded m.name)) := by
    intro n t w ms v o hn ht hw ho
    rw [List.find?_cons]
    dsimp only
    rw [hname hn ht]
    by_cases heq : t = name
    · rw [if_pos heq, heq, decide_eq_true rfl]
      exact .some hw
    · rw [if_neg heq, decide_eq_false (Ne.symm heq)]
      exact ho
  induction hs with
  | nil => exact .none
  | string hn hs _ ih => exact hcons hn h.1.1 (.string hs) (ih h.2)
  | null hn _ ih => exact hcons hn h.1.1 .null (ih h.2)
  | uint64 hn _ ih => exact hcons hn h.1.1 (.uint64 _) (ih h.2)
  | object hn hi _ _ ih => exact hcons hn h.1.1 (.object hi) (ih h.2.2)

theorem Says.fit (hs : Says fields ms) (h : fields.Named) : ∀ m ∈ ms, m.name.length < zbxMaxStringLen := by
  have hlen : ∀ {n : List Item} {t : Text}, decoded n = t → n.length = t.length := by
    intro n t hn
    rw [← hn, decoded, List.length_map]
  induction hs with
  | nil => simp
  | string hn _ _ ih => exact List.forall_mem_cons.2 ⟨hlen hn ▸ h.1.2, ih h.2⟩
  | null hn _ ih => exact List.forall_mem_cons.2 ⟨hlen hn ▸ h.1.2, ih h.2⟩
  | uint64 hn _ ih => exact List.forall_mem_cons.2 ⟨hlen hn ▸ h.1.2, ih h.2⟩
  | object hn _ _ _ ih => exact List.forall_mem_cons.2 ⟨hlen hn ▸ h.1.2, ih h.2.2⟩

theorem Says.names (hs : Says fields ms) (h : fields.Named) (rest : Text) :
    (pairs (opened ms rest) zbxMaxStringLen).map Prod.fst = fields.names := by
  have hpairs : pairs (opened ms rest) zbxMaxStringLen = seen rest ms :=
    pairs_object fun m hm => Nat.le_pred_of_lt (hs.fit h m hm)
  rw [hpairs]
  clear h hpairs
  induction hs with
  | nil => rfl
  | string hn _ _ ih => rw [seen, List.map_cons, ih, hn, Fields.names]
  | null hn _ ih => rw [seen, List.map_cons, ih, hn, Fields.names]
  | uint64 hn _ ih => rw [seen, List.map_cons, ih, hn, Fields.names]
  | object hn _ _ _ ih => rw [seen, List.map_cons, ih, hn, Fields.names]

/-- A lookup in an object that says what the tree says. -/
theorem Says.pairByName (hs : Says fields ms) (h : fields.Named) (rest name : Text) :
    (fields.lookup name = none → zbxJsonPairByName (opened ms rest) name = none) ∧
      ∀ v, fields.lookup name = some v →
        ∃ w t, SaysValue v w ∧ Behind t ∧ zbxJsonPairByName (opened ms rest) name = some (w.source ++ t) := by
  obtain ⟨hnone, hsome⟩ := zbxJsonPairByName_object (hs.fit h) rest name
  have hfind := hs.find h name
  constructor
  · intro hl
    rw [hl] at hfind
    cases hf : ms.find? fun m => name = cString (decoded m.name) with
    | none => exact hnone hf
    | some m =>
      rw [hf] at hfind
      cases hfind
  · intro v hl
    rw [hl] at hfind
    cases hf : ms.find? fun m => name = cString (decoded m.name) with
    | none =>
      rw [hf] at hfind
      cases hfind
    | some m =>
      rw [hf] at hfind
      cases hfind with
      | some hw =>
        obtain ⟨t, ht, hp⟩ := hsome m hf
        exact ⟨m.value, t, hw, ht, hp⟩

theorem Says.valueByName (hs : Says fields ms) (h : fields.Named) (rest name old : Text) (len : Nat) :
    zbxJsonValueByName (opened ms rest) name old len = readField old len (fields.lookup name) := by
  obtain ⟨hnone, hsome⟩ := hs.pairByName h rest name
  cases hl : fields.lookup name with
  | none => simp [zbxJsonValueByName, hnone hl, readField]
  | some v =>
    obtain ⟨w, t, hw, ht, hp⟩ := hsome v hl
    simp only [zbxJsonValueByName, hp, decodevalue_field hw ht]

/-- The object of a name. -/
theorem Says.openByName (hs : Says fields ms) (h : fields.Named) (rest : Text) {name : Text}
    (hl : fields.lookup name = some (.object inner)) :
    ∃ ms' t, Says inner ms' ∧
      (zbxJsonPairByName (opened ms rest) name).bind zbxJsonBracketsOpen = some (opened ms' t) := by
  obtain ⟨w, t, hw, -, hp⟩ := (hs.pairByName h rest name).2 _ hl
  cases hw with
  | @object _ ms' hi =>
    have hopen : zbxJsonBracketsOpen ((Value.object ms').source ++ t) = some (opened ms' t) :=
      zbxJsonBracketsOpen_object ms' t
    exact ⟨ms', t, hi, by rw [hp, Option.bind_some, hopen]⟩

theorem lookup_named (h : fields.Named) {name : Text} (hl : fields.lookup name = some (.object inner)) : inner.Named := by
  induction fields with
  | nil => cases hl
  | string n value rest ih =>
    simp only [Fields.lookup] at hl
    split at hl
    · cases hl
    · exact ih h.2 hl
  | uint64 n value rest ih =>
    simp only [Fields.lookup] at hl
    split at hl
    · cases hl
    · exact ih h.2 hl
  | object n inner' rest _ ih =>
    simp only [Fields.lookup] at hl
    split at hl
    · obtain rfl : inner' = inner := by simpa using hl
      exact h.2.1
    · exact ih h.2.2 hl

theorem Says.follow (hs : Says fields ms) (h : fields.Named) {path : List Text} (hp : fields.follow path = some inner)
    (rest : Text) :
    inner.Named ∧ ∃ ms' rest', Says inner ms' ∧ followJson path (opened ms rest) = some (opened ms' rest') := by
  induction path generalizing fields ms rest with
  | nil =>
    obtain rfl := Option.some.inj hp
    exact ⟨h, ms, rest, hs, rfl⟩
  | cons name path ih =>
    simp only [Fields.follow] at hp
    split at hp
    · rename_i next hl
      obtain ⟨ms', t, hnext, hopen⟩ := hs.openByName h rest hl
      obtain ⟨hinner, ms'', rest', hsays, hfollow⟩ := ih hnext (lookup_named h hl) hp t
      exact ⟨hinner, ms'', rest', hsays, by rw [followJson, hopen, Option.bind_some, hfollow]⟩
    · cases hp

/-- What the writer has written is opened, and an object at any depth is
found with its members in their order; each name gives the value of its
first member, as much of it as fits into the buffer. -/
theorem json_round_trip (h : fields.Named) {path : List Text} (hp : fields.follow path = some inner)
    (allocate : Nat) :
    ∃ jp, (zbxJsonOpen (zbxJson allocate fields)).bind (followJson path) = some jp ∧
      (pairs jp zbxMaxStringLen).map Prod.fst = inner.names ∧
      ∀ name old len, zbxJsonValueByName jp name old len = readField old len (inner.lookup name) := by
  obtain ⟨hinner, ms, rest, hs, hfollow⟩ := (says_members fields).follow h hp []
  refine ⟨opened ms rest, ?_, hs.names hinner rest, hs.valueByName hinner rest⟩
  rw [zbxJsonOpen_zbxJson, Option.bind_some, hfollow]

end

/-- A value with a line feed, a control byte, a slash, a byte of UTF-8 and a quote. -/
def sampleInner : Fields := .string (ascii "env") (some [10, 1, 0x2f, 0xe3, 0x22]) .nil

def sampleFields : Fields :=
  .uint64 (ascii "version") 1 (.object (ascii "da\"ta") sampleInner (.string (ascii "kind") none .nil))

theorem sampleFields_named : sampleFields.Named :=
  ⟨⟨by decide, by decide⟩, ⟨by decide, by decide⟩, ⟨⟨by decide, by decide⟩, trivial⟩, ⟨by decide, by decide⟩, trivial⟩

theorem json_round_trip_sample :
    ∃ jp, (zbxJsonOpen (zbxJson 4096 sampleFields)).bind (followJson [ascii "da\"ta"]) = some jp ∧
      (pairs jp zbxMaxStringLen).map Prod.fst = sampleInner.names ∧
      ∀ name old len, zbxJsonValueByName jp name old len = readField old len (sampleInner.lookup name) :=
  json_round_trip sampleFields_named rfl 4096

end JobArranger.ZbxJson
