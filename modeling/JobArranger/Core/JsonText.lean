import JobArranger.Core.Utf8

/-!
# JSON text

JSON as bytes (RFC 8259), without the blanks between tokens: strings item by
item, numbers and the three words, and objects by their members. Inside the
brackets of a value only strings and nesting are looked at, so that more is
covered there than the grammar allows.

* `decode`: the text of a string, in UTF-8.
* `Passes`: a loop that counts brackets outside strings.
* `Passes.value`, `Passes.members`: such a loop passes over a value, and over
  the members of an object.
-/
namespace JsonText

/-! ## Strings -/

structure HexDigit where
  value : Fin 16
  upper : Bool
  deriving DecidableEq, Repr

def HexDigit.byte (d : HexDigit) : UInt8 :=
  if d.value.val < 10 then UInt8.ofNat (0x30 + d.value.val)
  else if d.upper then UInt8.ofNat (0x37 + d.value.val) else UInt8.ofNat (0x57 + d.value.val)

/-- The escapes of one letter. -/
inductive Escape where
  | quote | backslash | slash | b | f | n | r | t
  deriving DecidableEq, Repr

def Escape.letter : Escape → UInt8
  | .quote => 0x22 | .backslash => 0x5c | .slash => 0x2f | .b => 0x62 | .f => 0x66 | .n => 0x6e | .r => 0x72 | .t => 0x74

def Escape.byte : Escape → UInt8
  | .quote => 0x22 | .backslash => 0x5c | .slash => 0x2f | .b => 8 | .f => 12 | .n => 10 | .r => 13 | .t => 9

/-- A byte that stands for itself in a string. -/
def Raw (b : UInt8) : Prop := b ≠ 0 ∧ b ≠ 0x22 ∧ b ≠ 0x5c

instance (b : UInt8) : Decidable (Raw b) := by unfold Raw; exact inferInstance

inductive Item where
  | raw (b : UInt8) (h : Raw b)
  | esc (e : Escape)
  | uni (a b c d : HexDigit)
  deriving DecidableEq, Repr

def Item.source : Item → List UInt8
  | .raw b _ => [b]
  | .esc e => [0x5c, e.letter]
  | .uni a b c d => [0x5c, 0x75, a.byte, b.byte, c.byte, d.byte]

def source (s : List Item) : List UInt8 := s.flatMap Item.source

/-- A string with its quotes. -/
def quoted (s : List Item) : List UInt8 := 0x22 :: source s ++ [0x22]

theorem quoted_append (s : List Item) (t : List UInt8) : quoted s ++ t = 0x22 :: (source s ++ 0x22 :: t) := by
  simp [quoted]

def unit (a b c d : HexDigit) : Nat := ((a.value.val * 16 + b.value.val) * 16 + c.value.val) * 16 + d.value.val

def utf8 (n : Nat) : List UInt8 :=
  if n < 0x80 then [UInt8.ofNat n]
  else if n < 0x800 then [UInt8.ofNat (0xc0 + n / 0x40), UInt8.ofNat (0x80 + n % 0x40)]
  else if n < 0x10000 then
    [UInt8.ofNat (0xe0 + n / 0x1000), UInt8.ofNat (0x80 + n / 0x40 % 0x40), UInt8.ofNat (0x80 + n % 0x40)]
  else [UInt8.ofNat (0xf0 + n / 0x40000), UInt8.ofNat (0x80 + n / 0x1000 % 0x40), UInt8.ofNat (0x80 + n / 0x40 % 0x40),
    UInt8.ofNat (0x80 + n % 0x40)]

/-- Two units that stand for one character beyond the first 65536. -/
def pair (hi lo : Nat) : Option Nat :=
  if 0xd800 ≤ hi ∧ hi < 0xdc00 ∧ 0xdc00 ≤ lo ∧ lo < 0xe000 then
    some (0x10000 + (hi - 0xd800) * 0x400 + (lo - 0xdc00))
  else none

/-- The unit that stands first in `s`. -/
def headUnit : List Item → Option Nat
  | .uni a b c d :: _ => some (unit a b c d)
  | _ => none

/-- `hi` is the first half of a pair that is still to come. -/
def decodeFrom : Option Nat → List Item → List UInt8
  | _, [] => []
  | _, .raw b _ :: s => b :: decodeFrom none s
  | _, .esc e :: s => e.byte :: decodeFrom none s
  | some n, .uni _ _ _ _ :: s => utf8 n ++ decodeFrom none s
  | none, .uni a b c d :: s =>
    match (headUnit s).bind (pair (unit a b c d)) with
    | some n => decodeFrom (some n) s
    | none => utf8 (unit a b c d) ++ decodeFrom none s

/-- The text of a string. A half without its other half is written like any
unit. -/
def decode (s : List Item) : List UInt8 := decodeFrom none s

/-! ## Values -/

inductive Bracket where
  | square | curly
  deriving DecidableEq, Repr

def Bracket.left : Bracket → UInt8
  | .square => 0x5b
  | .curly => 0x7b

def Bracket.right : Bracket → UInt8
  | .square => 0x5d
  | .curly => 0x7d

/-- A byte of no meaning to the nesting. -/
def Plain (b : UInt8) : Prop :=
  b ≠ 0 ∧ b ≠ 0x22 ∧ b ≠ 0x5c ∧ b ≠ 0x5b ∧ b ≠ 0x5d ∧ b ≠ 0x7b ∧ b ≠ 0x7d

instance (b : UInt8) : Decidable (Plain b) := by unfold Plain; exact inferInstance

/-- What stands inside brackets. -/
inductive Nested : List UInt8 → Prop
  | nil : Nested []
  | plain {b : UInt8} {t : List UInt8} : Plain b → Nested t → Nested (b :: t)
  | string (s : List Item) {t : List UInt8} : Nested t → Nested (quoted s ++ t)
  | group (k : Bracket) {t u : List UInt8} : Nested t → Nested u → Nested (k.left :: t ++ k.right :: u)

/-- A byte a number may start with. -/
def numberHead (b : UInt8) : Bool := (0x30 ≤ b && b ≤ 0x39) || b == 0x2d

/-- A byte of a number. -/
def numberByte (b : UInt8) : Bool := numberHead b || b == 0x2e || b == 0x2b || b == 0x65 || b == 0x45

structure Number where
  head : UInt8
  tail : List UInt8
  starts : numberHead head
  bytes : tail.all numberByte
  deriving DecidableEq, Repr

inductive Word where
  | null | true | false
  deriving DecidableEq, Repr

def Word.source : Word → List UInt8
  | .null => [0x6e, 0x75, 0x6c, 0x6c]
  | .true => [0x74, 0x72, 0x75, 0x65]
  | .false => [0x66, 0x61, 0x6c, 0x73, 0x65]

inductive Value where
  | string (s : List Item)
  | number (n : Number)
  | word (w : Word)
  | group (k : Bracket) (t : List UInt8) (h : Nested t)

def Value.source : Value → List UInt8
  | .string s => quoted s
  | .number n => n.head :: n.tail
  | .word w => w.source
  | .group k t _ => k.left :: t ++ [k.right]

/-- The text a value stands for: that of a string, else its own. -/
def Value.text : Value → List UInt8
  | .string s => decode s
  | v => v.source

structure Member where
  name : List Item
  value : Value

def Member.source (m : Member) : List UInt8 := quoted m.name ++ 0x3a :: m.value.source

/-- The members behind the first. -/
def more (ms : List Member) : List UInt8 := ms.flatMap fun m => 0x2c :: m.source

def members : List Member → List UInt8
  | [] => []
  | m :: ms => m.source ++ more ms

def object (ms : List Member) : List UInt8 := 0x7b :: members ms ++ [0x7d]

/-! ## Objects inside brackets -/

theorem numberByte_plain (b : UInt8) : numberByte b = true → Plain b ∧ b ≠ 0x2c :=
  Utf8.forall_byte (P := fun b => numberByte b = true → Plain b ∧ b ≠ 0x2c) (by decide +kernel) b

theorem numberHead_byte {b : UInt8} (h : numberHead b = true) : numberByte b = true := by
  simp [numberByte, h]

theorem Number.plain (x : Number) : ∀ b ∈ x.head :: x.tail, Plain b ∧ b ≠ 0x2c := by
  intro b hb
  obtain rfl | hb := List.mem_cons.1 hb
  · exact numberByte_plain _ (numberHead_byte x.starts)
  · exact numberByte_plain b (List.all_eq_true.1 x.bytes b hb)

theorem Word.plain (w : Word) : ∀ b ∈ w.source, Plain b ∧ b ≠ 0x2c := by
  cases w <;> simp [Word.source, Plain]

theorem Nested.plainText {t u : List UInt8} (ht : ∀ b ∈ t, Plain b) (hu : Nested u) : Nested (t ++ u) := by
  induction t with
  | nil => exact hu
  | cons b t ih => exact .plain (ht b List.mem_cons_self) (ih fun b hb => ht b (List.mem_cons_of_mem _ hb))

theorem Nested.value (v : Value) {t : List UInt8} (h : Nested t) : Nested (v.source ++ t) := by
  cases v with
  | string s => exact .string s h
  | number x => exact .plainText (fun b hb => (x.plain b hb).1) h
  | word w => exact .plainText (fun b hb => (w.plain b hb).1) h
  | group k u hu =>
    have htext : (Value.group k u hu).source ++ t = k.left :: u ++ k.right :: t := by simp [Value.source]
    rw [htext]
    exact .group k hu h

theorem Nested.member (m : Member) {t : List UInt8} (h : Nested t) : Nested (m.source ++ t) := by
  rw [Member.source, List.append_assoc, List.cons_append]
  exact .string _ (.plain (by decide) (.value m.value h))

theorem nested_more (ms : List Member) : Nested (more ms) := by
  induction ms with
  | nil => exact .nil
  | cons m ms ih => exact .plain (by decide) (.member m ih)

theorem nested_members (ms : List Member) : Nested (members ms) := by
  cases ms with
  | nil => exact .nil
  | cons m ms => exact .member m (nested_more ms)

/-- An object as a value. -/
def Value.object (ms : List Member) : Value := .group .curly (members ms) (nested_members ms)

/-! ## Loops that count brackets -/

/-- `f n` is a loop, outside strings and `n` brackets deep. A comma ends it
at depth 0, and so does a closing bracket. -/
structure Passes {α : Type} (f : Nat → List UInt8 → α) (ok : List UInt8 → Prop) : Prop where
  grow : ∀ {b t}, ok t → ok (b :: t)
  plain : ∀ {n b t}, Plain b → b ≠ 0x2c → ok t → f n (b :: t) = f n t
  comma : ∀ {n t}, ok t → f (n + 1) (0x2c :: t) = f (n + 1) t
  string : ∀ {n t} (s : List Item), ok t → f n (quoted s ++ t) = f n t
  left : ∀ {n t} (k : Bracket), ok t → f n (k.left :: t) = f (n + 1) t
  right : ∀ {n t} (k : Bracket), ok t → f (n + 1) (k.right :: t) = f n t

namespace Passes

variable {α : Type} {f : Nat → List UInt8 → α} {ok : List UInt8 → Prop} {rest : List UInt8}

theorem grow_append (h : Passes f ok) (t : List UInt8) (hr : ok rest) : ok (t ++ rest) := by
  induction t with
  | nil => exact hr
  | cons b t ih => exact h.grow ih

theorem plainText (h : Passes f ok) {n : Nat} {t : List UInt8} (ht : ∀ b ∈ t, Plain b ∧ b ≠ 0x2c) (hr : ok rest) :
    f n (t ++ rest) = f n rest := by
  induction t with
  | nil => rfl
  | cons b t ih =>
    obtain ⟨hb, hc⟩ := ht b List.mem_cons_self
    rw [List.cons_append, h.plain hb hc (h.grow_append t hr)]
    exact ih fun b hb => ht b (List.mem_cons_of_mem _ hb)

/-- Inside brackets commas are passed over too. -/
theorem nested (h : Passes f ok) {t : List UInt8} (ht : Nested t) {n : Nat} {rest : List UInt8} (hr : ok rest) :
    f (n + 1) (t ++ rest) = f (n + 1) rest := by
  induction ht generalizing n rest with
  | nil => rfl
  | @plain b t hb _ ih =>
    rw [List.cons_append, ← ih hr]
    by_cases hc : b = 0x2c
    · rw [hc, h.comma (h.grow_append t hr)]
    · exact h.plain hb hc (h.grow_append t hr)
  | @string s t _ ih => rw [List.append_assoc, h.string s (h.grow_append t hr), ih hr]
  | @group k t u _ _ iht ihu =>
    have hu : ok (u ++ rest) := h.grow_append u hr
    have htail : ok (k.right :: (u ++ rest)) := h.grow hu
    rw [List.cons_append, List.cons_append, List.append_assoc, List.cons_append,
      h.left k (h.grow_append t htail), iht htail, h.right k hu, ihu hr]

/-- A value is passed over at every depth. -/
theorem value (h : Passes f ok) (v : Value) {n : Nat} (hr : ok rest) : f n (v.source ++ rest) = f n rest := by
  cases v with
  | string s => exact h.string s hr
  | number x => exact h.plainText x.plain hr
  | word w => exact h.plainText w.plain hr
  | group k t ht =>
    have htail : ok (k.right :: rest) := h.grow hr
    rw [Value.source, List.cons_append, List.cons_append, List.append_assoc, List.singleton_append,
      h.left k (h.grow_append t htail), h.nested ht htail, h.right k hr]

theorem member (h : Passes f ok) (m : Member) {n : Nat} (hr : ok rest) : f n (m.source ++ rest) = f n rest := by
  have hv : ok (m.value.source ++ rest) := h.grow_append _ hr
  rw [Member.source, List.append_assoc, List.cons_append, h.string _ (h.grow hv),
    h.plain (by decide) (by decide) hv, h.value _ hr]

theorem more (h : Passes f ok) {n : Nat} (hcomma : ∀ {t}, ok t → f n (0x2c :: t) = f n t) (hr : ok rest)
    (ms : List Member) : f n (JsonText.more ms ++ rest) = f n rest := by
  induction ms with
  | nil => rfl
  | cons m ms ih =>
    have htail : ok (JsonText.more ms ++ rest) := h.grow_append _ hr
    rw [JsonText.more, List.flatMap_cons, ← JsonText.more, List.append_assoc, List.cons_append,
      hcomma (h.grow_append _ htail), h.member m htail, ih]

/-- Where commas are passed over, the members of an object are. -/
theorem members (h : Passes f ok) {n : Nat} (hcomma : ∀ {t}, ok t → f n (0x2c :: t) = f n t) (hr : ok rest)
    (ms : List Member) : f n (JsonText.members ms ++ rest) = f n rest := by
  cases ms with
  | nil => rfl
  | cons m ms => rw [JsonText.members, List.append_assoc, h.member m (h.grow_append _ hr), h.more hcomma hr]

end Passes

/-! ## Loops inside a string -/

theorem hexByte_raw (d : HexDigit) : Raw d.byte := by
  obtain ⟨v, u⟩ := d
  revert v
  cases u <;> decide

/-- A loop that passes over raw bytes, and over a backslash together with the
byte behind it, passes over a string. -/
theorem source_pass {α : Type} (g : List UInt8 → α) (ok : List UInt8 → Prop) (hgrow : ∀ {b t}, ok t → ok (b :: t))
    (hraw : ∀ {b t}, Raw b → ok t → g (b :: t) = g t) (hesc : ∀ {b t}, ok t → g (0x5c :: b :: t) = g t)
    (s : List Item) {rest : List UInt8} (hr : ok rest) : ok (source s ++ rest) ∧ g (source s ++ rest) = g rest := by
  induction s with
  | nil => exact ⟨hr, rfl⟩
  | cons i s ih =>
    obtain ⟨hok, heq⟩ := ih
    rw [source, List.flatMap_cons, List.append_assoc, ← source, ← heq]
    cases i with
    | raw b hb => exact ⟨hgrow hok, hraw hb hok⟩
    | esc e => exact ⟨hgrow (hgrow hok), hesc hok⟩
    | uni a b c d =>
      have h₁ := hgrow (b := d.byte) hok
      have h₂ := hgrow (b := c.byte) h₁
      have h₃ := hgrow (b := b.byte) h₂
      have h₄ := hgrow (b := a.byte) h₃
      refine ⟨hgrow (hgrow h₄), ?_⟩
      change g (0x5c :: 0x75 :: a.byte :: b.byte :: c.byte :: d.byte :: (source s ++ rest)) = _
      rw [hesc h₄, hraw (hexByte_raw a) h₃, hraw (hexByte_raw b) h₂, hraw (hexByte_raw c) h₁, hraw (hexByte_raw d) hok]

end JsonText
