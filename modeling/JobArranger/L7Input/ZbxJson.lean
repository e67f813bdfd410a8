import JobArranger.Core.JsonText
import JobArranger.L6Agent.JobDb

/-!
# Reading JSON in place (`libs/zbxjson/json.c`)

The trapper reads a request where it lies: a pointer is what stands from it
to the end of the buffer, and an opened object or array the pointers to its
two brackets (`JsonParse`). Names and values are decoded into buffers of
`len` bytes; what does not fit is dropped.

* `pairs_object`: on an object whose names fit, `zbx_json_pair_next` finds
  the members one by one.
* `zbxJsonPairByName_object`: of several members of one name the first is
  found.
* `pairs_fit`: nothing longer than the buffer is ever returned.
* `decoded_eq_iff`: when a decoded string is the string of the text.
-/
namespace JobArranger.ZbxJson

open JsonText
open Agent (cString)

/-- `MAX_STRING_LEN` (include/common.h:144). -/
def zbxMaxStringLen : Nat := 2048

/-- `struct zbx_json_parse`. -/
structure JsonParse where
  start : Text
  stop : Text

/-- The loop of `__zbx_json_rbracket`; `inString` is `state`.
mirrors src/libs/zbxjson/json.c:449-480 -/
def rbracketLoop (rbracket : UInt8) (inString : Bool) (level : Nat) : Text → Option Text
  | [] => none
  | b :: p =>
    if b = 0x22 then rbracketLoop rbracket (!inString) level p
    else if b = 0x5c then
      if inString then
        match p with
        | [] => none
        | _ :: p => rbracketLoop rbracket inString level p
      else rbracketLoop rbracket inString level p
    else if inString = false ∧ (b = 0x5b ∨ b = 0x7b) then rbracketLoop rbracket inString (level + 1) p
    else if inString = false ∧ (b = 0x5d ∨ b = 0x7d) then
      if level = 1 then if rbracket = b then some (b :: p) else none
      else rbracketLoop rbracket inString (level - 1) p
    else rbracketLoop rbracket inString level p

/-- mirrors src/libs/zbxjson/json.c:437-483 -/
def jsonRbracket (p : Text) : Option Text :=
  match p.head? with
  | some 0x7b => rbracketLoop 0x7d false 0 p
  | some 0x5b => rbracketLoop 0x5d false 0 p
  | _ => none

/-- mirrors src/libs/zbxjson/json.c:980-991 -/
def zbxJsonBracketsOpen (p : Text) : Option JsonParse := (jsonRbracket p).map fun stop => ⟨p, stop⟩

/-- The loop of `zbx_json_next`; `p <= jp->end` compares what is left.
mirrors src/libs/zbxjson/json.c:578-609 -/
def nextLoop (stop : Nat) (inString : Bool) (level : Nat) : Text → Option Text
  | [] => none
  | b :: p =>
    if p.length + 1 < stop then none
    else if b = 0x22 then nextLoop stop (!inString) level p
    else if b = 0x5c then
      if inString then
        match p with
        | [] => none
        | _ :: p => nextLoop stop inString level p
      else nextLoop stop inString level p
    else if inString = false ∧ (b = 0x5b ∨ b = 0x7b) then nextLoop stop inString (level + 1) p
    else if inString = false ∧ (b = 0x5d ∨ b = 0x7d) then
      if level = 0 then none else nextLoop stop inString (level - 1) p
    else if b = 0x2c ∧ inString = false ∧ level = 0 then some p
    else nextLoop stop inString level p

/-- `none` is the `NULL` of a first call.
mirrors src/libs/zbxjson/json.c:567-612 -/
def zbxJsonNext (jp : JsonParse) (p : Option Text) : Option Text :=
  if jp.start.length = jp.stop.length + 1 then none
  else match p with
    | none => some (jp.start.drop 1)
    | some p => nextLoop jp.stop.length false 0 p

/-- `ZBX_JSON_TYPE_*`. -/
inductive JsonType where
  | unknown | null | string | int | array | object
  deriving DecidableEq, Repr

def isNull (p : Text) : Bool := p.take 4 == [0x6e, 0x75, 0x6c, 0x6c]

def isDigit (b : UInt8) : Bool := 0x30 ≤ b && b ≤ 0x39

/-- mirrors src/libs/zbxjson/json.c:403-420 -/
def jsonType (p : Text) : JsonType :=
  match p with
  | [] => .unknown
  | b :: _ =>
    if b = 0x22 then .string
    else if isDigit b || b == 0x2d then .int
    else if b = 0x5b then .array
    else if b = 0x7b then .object
    else if isNull p then .null
    else .unknown

/-- `char` is signed. mirrors src/libs/zbxcommon/str.c:1868-1874 -/
def hex2num (c : UInt8) : UInt8 := if 0x61 ≤ c ∧ c < 0x80 then c - 0x57 else c - 0x30

/-- The letter cases of the inner switch. -/
def escaped (c : UInt8) : Option UInt8 :=
  if c = 0x22 ∨ c = 0x5c ∨ c = 0x2f then some c
  else if c = 0x62 then some 8
  else if c = 0x66 then some 12
  else if c = 0x6e then some 10
  else if c = 0x72 then some 13
  else if c = 0x74 then some 9
  else none

/-- The loop of `zbx_json_decodestring` behind the opening quote: the text
behind the closing one, and what was written. A full buffer takes nothing
more, and no escape is seen in what follows.
mirrors src/libs/zbxjson/json.c:670-722 -/
def decodeLoop (len : Nat) (out : Text) : Text → Option Text × Text
  | [] => (none, out)
  | b :: p =>
    if b = 0x22 then (some p, out)
    else if out.length < len - 1 then
      if b = 0x5c then
        match p with
        | [] => (none, out)
        | c :: p =>
          match escaped c with
          | some x => decodeLoop len (out ++ [x]) p
          | none =>
            if c = 0x75 then
              match p with
              | _ :: _ :: h :: l :: p => decodeLoop len (out ++ [(hex2num h <<< 4) + hex2num l]) p
              | _ => (none, out)
            else decodeLoop len out p
      else decodeLoop len (out ++ [b]) p
    else decodeLoop len out p

/-- The loop of `zbx_json_decodeint`.
mirrors src/libs/zbxjson/json.c:747-762 -/
def decodeIntLoop (len : Nat) (out : Text) : Text → Option Text × Text
  | [] => (none, out)
  | b :: p =>
    if isDigit b || b == 0x2d then decodeIntLoop len (if out.length < len - 1 then out ++ [b] else out) p
    else (some (b :: p), out)

/-- The buffer after bytes were written without a final NUL. -/
def overwritten (old out : Text) : Text := out ++ old.drop out.length

/-- A decoded value: whether there is one, and the buffer that held `old`.
mirrors src/libs/zbxjson/json.c:661-806 -/
def zbxJsonDecodevalue (p : Text) (old : Text) (len : Nat) : Ret × Text :=
  let finish (r : Option Text × Text) : Ret × Text :=
    match r with
    | (some _, out) => (.succeed, out)
    | (none, out) => (.fail, overwritten old out)
  match jsonType p with
  | .string => finish (decodeLoop len [] (p.drop 1))
  | .int => finish (decodeIntLoop len [] p)
  | .null => (.succeed, [])
  | _ => (.fail, old)

/-- The name of the next pair and the pointer to its value. What a failed
call leaves in the buffer is not read by the callers.
mirrors src/libs/zbxjson/json.c:835-853 -/
def zbxJsonPairNext (jp : JsonParse) (p : Option Text) (len : Nat) : Option (Text × Text) :=
  match zbxJsonNext jp p with
  | none => none
  | some p =>
    if jsonType p = .string then
      match decodeLoop len [] (p.drop 1) with
      | (some (0x3a :: p), name) => some (name, p)
      | _ => none
    else none

/-- What `while (NULL != (p = zbx_json_pair_next(jp, p, …)))` sees. -/
def pairsFrom (jp : JsonParse) (len : Nat) : Nat → Option Text → List (Text × Text)
  | 0, _ => []
  | n + 1, p =>
    match zbxJsonPairNext jp p len with
    | none => []
    | some (name, value) => (name, value) :: pairsFrom jp len n (some value)

def pairs (jp : JsonParse) (len : Nat) : List (Text × Text) := pairsFrom jp len (jp.start.length + 1) none

/-- mirrors src/libs/zbxjson/json.c:871-883 -/
def zbxJsonPairByName (jp : JsonParse) (name : Text) : Option Text :=
  ((pairs jp zbxMaxStringLen).find? fun x => name = cString x.1).map Prod.snd

/-- mirrors src/libs/zbxjson/json.c:923-934 -/
def zbxJsonValueByName (jp : JsonParse) (name : Text) (string : Text) (len : Nat) : Ret × Text :=
  match zbxJsonPairByName jp name with
  | none => (.fail, string)
  | some p => zbxJsonDecodevalue p string len

/-! ## Every call shortens the text -/

theorem nextLoop_lt {stop level : Nat} {inString : Bool} {p q : Text}
    (h : nextLoop stop inString level p = some q) : q.length < p.length := by
  fun_induction nextLoop stop inString level p
  case case1 | case2 | case4 | case8 => cases h
  case case10 =>
    obtain rfl := Option.some.inj h
    exact Nat.lt_succ_self _
  all_goals
    rename_i ih
    have := ih h
    simp only [List.length_cons] at this ⊢
    omega

/-- One round on a nonempty text returns, or goes on behind what it read with
at most one more byte written. -/
theorem decodeLoop_round (len : Nat) (out : Text) (b : UInt8) (p : Text) :
    decodeLoop len out (b :: p) = (some p, out) ∨ decodeLoop len out (b :: p) = (none, out) ∨
      ∃ q out', q.length ≤ p.length ∧ (out.length ≤ len - 1 → out'.length ≤ len - 1) ∧
        decodeLoop len out (b :: p) = decodeLoop len out' q := by
  have hroom : out.length < len - 1 → ∀ x : UInt8, (out ++ [x]).length ≤ len - 1 := fun h x => by
    rw [List.length_append, List.length_singleton]
    exact h
  rw [decodeLoop.eq_def]
  by_cases hq : b = 0x22
  · exact .inl (if_pos hq)
  refine .inr ?_
  simp only [if_neg hq]
  by_cases hlen : out.length < len - 1
  · simp only [if_pos hlen]
    by_cases hb : b = 0x5c
    · simp only [if_pos hb]
      cases p with
      | nil => exact .inl rfl
      | cons c p =>
        dsimp only
        cases hc : escaped c with
        | some x => exact .inr ⟨p, _, Nat.le_succ _, fun _ => hroom hlen x, rfl⟩
        | none =>
          dsimp only
          by_cases hu : c = 0x75
          · simp only [if_pos hu]
            split
            · exact .inr ⟨_, _, by simp only [List.length_cons]; omega, fun _ => hroom hlen _, rfl⟩
            · exact .inl rfl
          · exact .inr ⟨p, out, Nat.le_succ _, id, if_neg hu⟩
    · exact .inr ⟨p, _, Nat.le_refl _, fun _ => hroom hlen b, if_neg hb⟩
  · exact .inr ⟨p, out, Nat.le_refl _, id, if_neg hlen⟩

theorem decodeLoop_lt {len : Nat} {out p q w : Text} (h : decodeLoop len out p = (some q, w)) :
    q.length < p.length := by
  induction hn : p.length using Nat.strong_induction_on generalizing out p with
  | _ n ih =>
    subst hn
    cases p with
    | nil => cases h
    | cons b p =>
      rw [List.length_cons]
      obtain he | he | ⟨p', out', hle, -, he⟩ := decodeLoop_round len out b p
      · obtain ⟨hq, -⟩ := Prod.mk.inj (he.symm.trans h)
        obtain rfl := Option.some.inj hq
        exact Nat.lt_succ_self _
      · cases he.symm.trans h
      · have := ih p'.length (Nat.lt_succ_of_le hle) (he.symm.trans h) rfl
        omega

/-- The text before the pointer, as `zbx_json_next` gets it. -/
def behind (jp : JsonParse) : Option Text → Nat
  | none => jp.start.length + 1
  | some p => p.length

theorem zbxJsonPairNext_lt {jp : JsonParse} {p : Option Text} {len : Nat} {name v : Text}
    (h : zbxJsonPairNext jp p len = some (name, v)) : v.length < behind jp p := by
  unfold zbxJsonPairNext at h
  cases hn : zbxJsonNext jp p with
  | none => simp [hn] at h
  | some q =>
    have hq : q.length < behind jp p := by
      unfold zbxJsonNext at hn
      split at hn
      · cases hn
      cases p with
      | none =>
        obtain rfl := Option.some.inj hn
        rw [List.length_drop, behind]
        omega
      | some p => exact nextLoop_lt hn
    simp only [hn] at h
    split at h
    · split at h
      · rename_i hd
        obtain ⟨-, rfl⟩ := Prod.mk.inj (Option.some.inj h)
        have := decodeLoop_lt hd
        simp only [List.length_cons, List.length_drop] at this
        omega
      · cases h
    · cases h

/-- The number of rounds allowed in `pairs` is never used up. -/
theorem pairsFrom_more {jp : JsonParse} {len n : Nat} {p : Option Text} (h : behind jp p ≤ n) :
    pairsFrom jp len (n + 1) p = pairsFrom jp len n p := by
  induction n generalizing p with
  | zero =>
    rw [pairsFrom, pairsFrom]
    cases hn : zbxJsonPairNext jp p len with
    | none => rfl
    | some x =>
      have hlt := zbxJsonPairNext_lt (show zbxJsonPairNext jp p len = some (x.1, x.2) from hn)
      omega
  | succ n ih =>
    rw [pairsFrom, pairsFrom]
    cases hn : zbxJsonPairNext jp p len with
    | none => rfl
    | some x =>
      have hlt := zbxJsonPairNext_lt (show zbxJsonPairNext jp p len = some (x.1, x.2) from hn)
      have hle : behind jp (some x.2) ≤ n := by
        rw [behind]
        omega
      exact congrArg (x :: ·) (ih hle)

theorem pairsFrom_enough {jp : JsonParse} {len n m : Nat} {p : Option Text} (h : behind jp p ≤ n) (hm : n ≤ m) :
    pairsFrom jp len m p = pairsFrom jp len n p := by
  induction hm with
  | refl => rfl
  | step hm ih => rw [pairsFrom_more (h.trans hm), ih]

/-! ## Buffers -/

theorem decodeLoop_fits {len : Nat} {out p : Text} (h : out.length ≤ len - 1) :
    (decodeLoop len out p).2.length ≤ len - 1 := by
  induction hn : p.length using Nat.strong_induction_on generalizing out p with
  | _ n ih =>
    subst hn
    cases p with
    | nil => exact h
    | cons b p =>
      obtain he | he | ⟨p', out', hle, hout, he⟩ := decodeLoop_round len out b p
      · rwa [he]
      · rwa [he]
      · rw [he]
        exact ih p'.length (Nat.lt_succ_of_le hle) (hout h) rfl

theorem decodeIntLoop_fits {len : Nat} {out p : Text} (h : out.length ≤ len - 1) :
    (decodeIntLoop len out p).2.length ≤ len - 1 := by
  fun_induction decodeIntLoop len out p
  case case2 =>
    rename_i ih
    refine ih ?_
    split
    · rw [List.length_append, List.length_singleton]
      omega
    · exact h
  all_goals exact h

theorem overwritten_fits {old out : Text} {n : Nat} (ho : old.length ≤ n) (h : out.length ≤ n) :
    (overwritten old out).length ≤ n := by
  rw [overwritten, List.length_append, List.length_drop]
  omega

theorem zbxJsonDecodevalue_fits {p old : Text} {len : Nat} (h : old.length ≤ len - 1) :
    (zbxJsonDecodevalue p old len).2.length ≤ len - 1 := by
  unfold zbxJsonDecodevalue
  cases jsonType p with
  | string =>
    have hfits : (decodeLoop len [] (p.drop 1)).2.length ≤ len - 1 := decodeLoop_fits (Nat.zero_le _)
    dsimp only
    cases hd : decodeLoop len [] (p.drop 1) with
    | mk q out =>
      rw [hd] at hfits
      cases q with
      | none => exact overwritten_fits h hfits
      | some q => exact hfits
  | int =>
    have hfits : (decodeIntLoop len [] p).2.length ≤ len - 1 := decodeIntLoop_fits (Nat.zero_le _)
    dsimp only
    cases hd : decodeIntLoop len [] p with
    | mk q out =>
      rw [hd] at hfits
      cases q with
      | none => exact overwritten_fits h hfits
      | some q => exact hfits
  | null => exact Nat.zero_le _
  | unknown | array | object => exact h

theorem zbxJsonPairNext_fits {jp : JsonParse} {len : Nat} {p : Option Text} {name v : Text}
    (h : zbxJsonPairNext jp p len = some (name, v)) : name.length ≤ len - 1 := by
  unfold zbxJsonPairNext at h
  cases hn : zbxJsonNext jp p with
  | none => simp [hn] at h
  | some q =>
    have hfits : (decodeLoop len [] (q.drop 1)).2.length ≤ len - 1 := decodeLoop_fits (Nat.zero_le _)
    simp only [hn] at h
    split at h
    · split at h
      · rename_i hd
        obtain ⟨rfl, -⟩ := Prod.mk.inj (Option.some.inj h)
        rw [hd] at hfits
        exact hfits
      · cases h
    · cases h

theorem pairsFrom_fits {jp : JsonParse} {len n : Nat} {p : Option Text} :
    ∀ x ∈ pairsFrom jp len n p, x.1.length ≤ len - 1 := by
  induction n generalizing p with
  | zero => exact fun x hx => absurd hx (by simp [pairsFrom])
  | succ n ih =>
    intro x hx
    rw [pairsFrom] at hx
    cases hn : zbxJsonPairNext jp p len with
    | none => simp [hn] at hx
    | some y =>
      simp only [hn, List.mem_cons] at hx
      obtain rfl | hx := hx
      · exact zbxJsonPairNext_fits hn
      · exact ih x hx

/-! ## On the text of an object -/

/-- What the code makes of an item. -/
def itemByte : Item → UInt8
  | .raw b _ => b
  | .esc e => e.byte
  | .uni _ _ c d => (hex2num c.byte <<< 4) + hex2num d.byte

/-- What the code makes of a string that fits. -/
def decoded (s : List Item) : Text := s.map itemByte

theorem escaped_letter (e : Escape) : escaped e.letter = some e.byte := by
  cases e <;> rfl

section
variable {len : Nat} {out p : Text}

theorem decodeLoop_quote : decodeLoop len out (0x22 :: p) = (some p, out) := by
  rw [decodeLoop.eq_def]
  rfl

theorem decodeLoop_raw {b : UInt8} (hb : Raw b) (h : out.length < len - 1) :
    decodeLoop len out (b :: p) = decodeLoop len (out ++ [b]) p := by
  rw [decodeLoop.eq_def]
  simp only [if_neg hb.2.1, if_pos h, if_neg hb.2.2]

theorem decodeLoop_esc (e : Escape) (h : out.length < len - 1) :
    decodeLoop len out (0x5c :: e.letter :: p) = decodeLoop len (out ++ [e.byte]) p := by
  rw [decodeLoop.eq_def]
  simp [h, escaped_letter]

theorem decodeLoop_uni (a b c d : UInt8) (h : out.length < len - 1) :
    decodeLoop len out (0x5c :: 0x75 :: a :: b :: c :: d :: p) =
      decodeLoop len (out ++ [(hex2num c <<< 4) + hex2num d]) p := by
  rw [decodeLoop.eq_def]
  simp [h, escaped]

end

/-- A string that fits. -/
theorem decodeLoop_source {len : Nat} (s : List Item) {out rest : Text} (h : out.length + s.length ≤ len - 1) :
    decodeLoop len out (source s ++ 0x22 :: rest) = (some rest, out ++ decoded s) := by
  induction s generalizing out with
  | nil =>
    rw [decoded, List.map_nil, List.append_nil]
    exact decodeLoop_quote
  | cons i s ih =>
    rw [List.length_cons] at h
    have hroom : out.length < len - 1 := by omega
    have hnext : (out ++ [itemByte i]).length + s.length ≤ len - 1 := by
      rw [List.length_append, List.length_singleton]
      omega
    have hout : out ++ decoded (i :: s) = out ++ [itemByte i] ++ decoded s := by simp [decoded]
    rw [hout, ← ih hnext]
    cases i with
    | raw b hb => exact decodeLoop_raw hb hroom
    | esc e => exact decodeLoop_esc e hroom
    | uni a b c d => exact decodeLoop_uni _ _ _ _ hroom

theorem rbracket_passes (rbracket : UInt8) :
    Passes (fun n => rbracketLoop rbracket false (n + 1)) (fun _ => True) where
  grow := fun _ => trivial
  plain := by
    intro n b t hb _ _
    obtain ⟨-, h22, h5c, h5b, h5d, h7b, h7d⟩ := hb
    rw [rbracketLoop.eq_def]
    simp [h22, h5c, h5b, h5d, h7b, h7d]
  comma := by
    intro n t _
    rw [rbracketLoop.eq_def]
    simp
  string := by
    intro n t s _
    have hopen : ∀ t, rbracketLoop rbracket false (n + 1) (0x22 :: t) = rbracketLoop rbracket true (n + 1) t := by
      intro t
      rw [rbracketLoop.eq_def]
      simp
    have hclose : rbracketLoop rbracket true (n + 1) (0x22 :: t) = rbracketLoop rbracket false (n + 1) t := by
      rw [rbracketLoop.eq_def]
      simp
    obtain ⟨-, hpass⟩ : True ∧ rbracketLoop rbracket true (n + 1) (source s ++ 0x22 :: t) =
        rbracketLoop rbracket true (n + 1) (0x22 :: t) := by
      refine source_pass (rbracketLoop rbracket true (n + 1)) (fun _ => True) (fun _ => trivial) ?_ ?_ s trivial
      · intro b t hb _
        rw [rbracketLoop.eq_def]
        simp [hb.2.1, hb.2.2]
      · intro b t _
        rw [rbracketLoop.eq_def]
        simp
    rw [quoted_append, hopen, hpass, hclose]
  left := by
    intro n t k _
    rw [rbracketLoop.eq_def]
    cases k <;> simp [Bracket.left]
  right := by
    intro n t k _
    rw [rbracketLoop.eq_def]
    cases k <;> simp [Bracket.right]

theorem next_passes (stop : Nat) : Passes (nextLoop stop false) (fun t => stop ≤ t.length) where
  grow := fun h => h.trans (Nat.le_succ _)
  plain := by
    intro n b t hb hc ht
    obtain ⟨-, h22, h5c, h5b, h5d, h7b, h7d⟩ := hb
    rw [nextLoop.eq_def]
    simp [h22, h5c, h5b, h5d, h7b, h7d, hc, show ¬ t.length + 1 < stop by omega]
  comma := by
    intro n t ht
    rw [nextLoop.eq_def]
    simp [show ¬ t.length + 1 < stop by omega]
  string := by
    intro n t s ht
    obtain ⟨hlen, hpass⟩ : stop ≤ (source s ++ 0x22 :: t).length ∧
        nextLoop stop true n (source s ++ 0x22 :: t) = nextLoop stop true n (0x22 :: t) := by
      refine source_pass (nextLoop stop true n) (fun t => stop ≤ t.length) (fun h => h.trans (Nat.le_succ _)) ?_ ?_ s
        (ht.trans (Nat.le_succ _))
      · intro b t hb ht
        rw [nextLoop.eq_def]
        simp [hb.2.1, hb.2.2, show ¬ t.length + 1 < stop by omega]
      · intro b t ht
        rw [nextLoop.eq_def]
        simp [show ¬ t.length + 1 + 1 < stop by omega]
    have hopen : nextLoop stop false n (0x22 :: (source s ++ 0x22 :: t)) = nextLoop stop true n (source s ++ 0x22 :: t) := by
      rw [nextLoop.eq_def]
      simp only [if_neg (show ¬ (source s ++ 0x22 :: t).length + 1 < stop by omega)]
      simp
    have hclose : nextLoop stop true n (0x22 :: t) = nextLoop stop false n t := by
      rw [nextLoop.eq_def]
      simp [show ¬ t.length + 1 < stop by omega]
    rw [quoted_append, hopen, hpass, hclose]
  left := by
    intro n t k ht
    rw [nextLoop.eq_def]
    cases k <;> simp [Bracket.left, show ¬ t.length + 1 < stop by omega]
  right := by
    intro n t k ht
    rw [nextLoop.eq_def]
    cases k <;> simp [Bracket.right, show ¬ t.length + 1 < stop by omega]

/-- The object with the members `ms`, opened; `rest` stands behind it. -/
def opened (ms : List Member) (rest : Text) : JsonParse := ⟨object ms ++ rest, 0x7d :: rest⟩

theorem object_append (ms : List Member) (rest : Text) : object ms ++ rest = 0x7b :: (members ms ++ 0x7d :: rest) := by
  simp [object]

theorem zbxJsonBracketsOpen_object (ms : List Member) (rest : Text) :
    zbxJsonBracketsOpen (object ms ++ rest) = some (opened ms rest) := by
  have hopen : ∀ t, rbracketLoop 0x7d false 0 (0x7b :: t) = rbracketLoop 0x7d false 1 t := by
    intro t
    rw [rbracketLoop.eq_def]
    simp
  have hclose : rbracketLoop 0x7d false 1 (0x7d :: rest) = some (0x7d :: rest) := by
    rw [rbracketLoop.eq_def]
    simp
  have hmembers : rbracketLoop 0x7d false 1 (members ms ++ 0x7d :: rest) = rbracketLoop 0x7d false 1 (0x7d :: rest) := by
    refine (rbracket_passes 0x7d).members (n := 0) (fun {t} _ => ?_) trivial ms
    rw [rbracketLoop.eq_def]
    simp
  have hrbracket : jsonRbracket (object ms ++ rest) = some (0x7d :: rest) := by
    rw [object_append, jsonRbracket]
    simp only [List.head?_cons]
    rw [hopen, hmembers, hclose]
  rw [zbxJsonBracketsOpen, hrbracket, Option.map_some, opened]


/-- The members as they are found: the name as the code reads it, and the
text from the value on. -/
def seen (rest : Text) : List Member → List (Text × Text)
  | [] => []
  | m :: ms => (decoded m.name, m.value.source ++ (more ms ++ 0x7d :: rest)) :: seen rest ms

section
variable {len : Nat} {all ms : List Member} {m : Member} {rest t : Text}

theorem opened_length (hall : all ≠ []) : (opened all rest).start.length ≠ (opened all rest).stop.length + 1 := by
  obtain ⟨m, ms, rfl⟩ := List.exists_cons_of_ne_nil hall
  simp [opened, object, members, Member.source, quoted]
  omega

theorem jsonType_string (s : List Item) (t : Text) : jsonType (quoted s ++ t) = .string := by
  simp [quoted_append, jsonType]

/-- Reading a member from its name on. -/
theorem pairNext_member (hm : m.name.length ≤ len - 1) {jp : JsonParse} {p : Option Text}
    (hn : zbxJsonNext jp p = some (m.source ++ t)) :
    zbxJsonPairNext jp p len = some (decoded m.name, m.value.source ++ t) := by
  have htext : m.source ++ t = quoted m.name ++ (0x3a :: (m.value.source ++ t)) := by
    rw [Member.source, List.append_assoc, List.cons_append]
  have hdecode : decodeLoop len [] ((m.source ++ t).drop 1) =
      (some (0x3a :: (m.value.source ++ t)), decoded m.name) := by
    rw [htext, quoted_append, List.drop_succ_cons, List.drop_zero, decodeLoop_source _ (by simpa using hm), List.nil_append]
  have htype : jsonType (m.source ++ t) = .string := by
    rw [htext]
    exact jsonType_string _ _
  simp only [zbxJsonPairNext, hn, htype, if_true, hdecode]

theorem next_value (v : Value) (hall : all ≠ []) (hlen : rest.length + 1 ≤ t.length) :
    zbxJsonNext (opened all rest) (some (v.source ++ t)) = nextLoop (rest.length + 1) false 0 t := by
  rw [zbxJsonNext, if_neg (opened_length hall)]
  exact (next_passes (rest.length + 1)).value v hlen

/-- From one value on. -/
theorem pairsFrom_value (hall : all ≠ []) (v : Value) (hfit : ∀ m ∈ ms, m.name.length ≤ len - 1) {n : Nat}
    (hn : ms.length ≤ n) :
    pairsFrom (opened all rest) len n (some (v.source ++ (more ms ++ 0x7d :: rest))) = seen rest ms := by
  induction ms generalizing n v with
  | nil =>
    have hnext : zbxJsonNext (opened all rest) (some (v.source ++ (more [] ++ 0x7d :: rest))) = none := by
      rw [next_value v hall (by simp [more]), more, List.flatMap_nil, List.nil_append, nextLoop.eq_def]
      simp
    cases n with
    | zero => rfl
    | succ n => simp only [pairsFrom, zbxJsonPairNext, hnext, seen]
  | cons m ms ih =>
    obtain ⟨n, rfl⟩ : ∃ k, n = k + 1 := ⟨n - 1, by rw [List.length_cons] at hn; omega⟩
    have htail : more (m :: ms) ++ 0x7d :: rest = 0x2c :: (m.source ++ (more ms ++ 0x7d :: rest)) := by
      simp [more]
    have hnext : zbxJsonNext (opened all rest) (some (v.source ++ (more (m :: ms) ++ 0x7d :: rest))) =
        some (m.source ++ (more ms ++ 0x7d :: rest)) := by
      rw [next_value v hall (by simp), htail, nextLoop.eq_def]
      simp
      omega
    rw [pairsFrom, pairNext_member (hfit m List.mem_cons_self) hnext]
    simp only [seen]
    rw [ih m.value (fun m hm => hfit m (List.mem_cons_of_mem _ hm)) (by rw [List.length_cons] at hn; omega)]

/-- The members of an object, if their names fit. -/
theorem pairs_object (hfit : ∀ m ∈ ms, m.name.length ≤ len - 1) : pairs (opened ms rest) len = seen rest ms := by
  rw [pairs]
  cases ms with
  | nil =>
    have hnext : zbxJsonNext (opened [] rest) none = none := by
      simp [zbxJsonNext, opened, object, members]
    simp only [pairsFrom, zbxJsonPairNext, hnext, seen]
  | cons m ms =>
    have hnext : zbxJsonNext (opened (m :: ms) rest) none = some (m.source ++ (more ms ++ 0x7d :: rest)) := by
      rw [zbxJsonNext, if_neg (opened_length (List.cons_ne_nil m ms))]
      simp [opened, object_append, members]
    have hrounds : pairsFrom (opened (m :: ms) rest) len ((opened (m :: ms) rest).start.length + 1) none =
        pairsFrom (opened (m :: ms) rest) len ((opened (m :: ms) rest).start.length + 1 + (ms.length + 1)) none :=
      (pairsFrom_enough (p := none) (Nat.le_refl _) (Nat.le_add_right _ _)).symm
    rw [hrounds, ← Nat.add_assoc, pairsFrom,
      pairNext_member (hfit m List.mem_cons_self) hnext]
    simp only [seen]
    rw [pairsFrom_value (List.cons_ne_nil m ms) m.value (fun m hm => hfit m (List.mem_cons_of_mem _ hm)) (by omega)]

end


/-! ## Values -/

/-- A byte of the numbers the code reads. -/
def intByte (b : UInt8) : Bool := isDigit b || b == 0x2d

/-- What follows a value: a comma or the end of the object. -/
def Behind (t : Text) : Prop := ∃ b u, t = b :: u ∧ (b = 0x2c ∨ b = 0x7d)

/-- What `zbx_json_decodevalue` leaves in a buffer that holds `old`. -/
def copied (old : Text) (len : Nat) : Value → Text
  | .string s => decoded s
  | .number n => ((n.head :: n.tail).takeWhile intByte).take (len - 1)
  | .word .null => []
  | _ => old

theorem decodeIntLoop_spec {len : Nat} {x t : Text} (ht : ∃ b u, t = b :: u ∧ intByte b = false) {out : Text}
    (hout : out.length ≤ len - 1) :
    decodeIntLoop len out (x ++ t) =
      (some (x.dropWhile intByte ++ t), (out ++ x.takeWhile intByte).take (len - 1)) := by
  induction x generalizing out with
  | nil =>
    obtain ⟨b, u, rfl, hb⟩ := ht
    rw [intByte] at hb
    simp [decodeIntLoop, hb, List.take_of_length_le hout]
  | cons b x ih =>
    rw [List.cons_append, decodeIntLoop]
    cases hb : intByte b with
    | false =>
      have hb' := hb
      rw [intByte] at hb'
      simp [hb, hb', List.take_of_length_le hout]
    | true =>
      have hb' := hb
      rw [intByte] at hb'
      rw [if_pos hb']
      by_cases hroom : out.length < len - 1
      · rw [if_pos hroom, ih (by rw [List.length_append, List.length_singleton]; omega)]
        simp [hb]
      · rw [if_neg hroom, ih hout]
        have hfull : out.length = len - 1 := by omega
        simp [hb, hfull]

theorem zbxJsonDecodevalue_source {old t : Text} {len : Nat} (v : Value) (ht : Behind t)
    (hv : ∀ s, v = .string s → s.length ≤ len - 1) :
    (zbxJsonDecodevalue (v.source ++ t) old len).2 = copied old len v := by
  cases v with
  | string s =>
    have htype : jsonType (quoted s ++ t) = .string := jsonType_string s t
    have hdecode : decodeLoop len [] ((quoted s ++ t).drop 1) = (some t, decoded s) := by
      rw [quoted_append, List.drop_succ_cons, List.drop_zero, decodeLoop_source _ (by simpa using hv s rfl),
        List.nil_append]
    simp only [zbxJsonDecodevalue, Value.source, htype, hdecode, copied]
  | number x =>
    have hhead : intByte x.head = true := x.starts
    have htype : jsonType (x.head :: x.tail ++ t) = .int := by
      have hquote : x.head ≠ 0x22 := by
        intro h
        rw [h] at hhead
        cases hhead
      rw [intByte] at hhead
      simp [jsonType, hquote, hhead]
    have hend : ∃ b u, t = b :: u ∧ intByte b = false := by
      obtain ⟨b, u, rfl, rfl | rfl⟩ := ht
      · exact ⟨_, u, rfl, rfl⟩
      · exact ⟨_, u, rfl, rfl⟩
    have hdecode : decodeIntLoop len [] (x.head :: x.tail ++ t) =
        (some ((x.head :: x.tail).dropWhile intByte ++ t), ([] ++ (x.head :: x.tail).takeWhile intByte).take (len - 1)) :=
      decodeIntLoop_spec hend (Nat.zero_le _)
    simp only [zbxJsonDecodevalue, Value.source, htype, hdecode, copied, List.nil_append]
  | word w =>
    cases w with
    | null => rfl
    | true => rfl
    | false => rfl
  | group k u hu =>
    cases k with
    | square => rfl
    | curly => rfl

/-! ## Names -/

theorem zbxJsonPairByName_object {ms : List Member} (hfit : ∀ m ∈ ms, m.name.length < zbxMaxStringLen) (rest name : Text) :
    (ms.find? (fun m => name = cString (decoded m.name)) = none → zbxJsonPairByName (opened ms rest) name = none) ∧
    ∀ m, ms.find? (fun m => name = cString (decoded m.name)) = some m →
      ∃ t, Behind t ∧ zbxJsonPairByName (opened ms rest) name = some (m.value.source ++ t) := by
  have hpairs : pairs (opened ms rest) zbxMaxStringLen = seen rest ms :=
    pairs_object fun m hm => Nat.le_pred_of_lt (hfit m hm)
  rw [zbxJsonPairByName, hpairs]
  clear hfit hpairs
  induction ms with
  | nil => simp [seen]
  | cons m ms ih =>
    rw [seen, List.find?_cons, List.find?_cons]
    by_cases hname : name = cString (decoded m.name)
    · refine ⟨by simp [hname], fun m' hm' => ?_⟩
      simp only [hname, decide_true, Option.some.injEq] at hm' ⊢
      subst hm'
      refine ⟨_, ?_, rfl⟩
      cases ms with
      | nil => exact ⟨0x7d, rest, by simp [more], .inr rfl⟩
      | cons m' ms => exact ⟨0x2c, _, by simp [more]; rfl, .inl rfl⟩
    · simpa [hname] using ih


/-! ## When a decoded string is the string -/

/-- An item the code reads right: an escape of a unit is one of ASCII, not of
NUL, and its last digit is no capital letter. -/
def ItemPlain : Item → Prop
  | .raw _ _ => True
  | .esc _ => True
  | .uni a b c d => 0 < unit a b c d ∧ unit a b c d < 0x80 ∧ ¬(d.upper = true ∧ 10 ≤ d.value.val)

theorem utf8_length (n : Nat) : (utf8 n).length = 1 ∧ n < 0x80 ∨ 2 ≤ (utf8 n).length ∧ 0x80 ≤ n := by
  unfold utf8
  split
  · exact .inl ⟨rfl, by omega⟩
  · split
    · exact .inr ⟨Nat.le_refl 2, by omega⟩
    · split
      · exact .inr ⟨by simp, by omega⟩
      · exact .inr ⟨by simp, by omega⟩

theorem pair_some {hi lo n : Nat} (h : pair hi lo = some n) : (utf8 n).length = 4 := by
  unfold pair at h
  split at h
  · obtain rfl := Option.some.inj h
    have : ¬ 0x10000 + (hi - 0xd800) * 0x400 + (lo - 0xdc00) < 0x10000 := by omega
    unfold utf8
    rw [if_neg (by omega), if_neg (by omega), if_neg this]
    rfl
  · cases h

/-- A unit stands for itself, or it takes the next item with it. -/
theorem decode_uni (a b c d : HexDigit) (s : List Item) :
    decode (.uni a b c d :: s) = utf8 (unit a b c d) ++ decode s ∨
      0xd800 ≤ unit a b c d ∧ ∃ i s' u, s = i :: s' ∧ u.length = 4 ∧ decode (.uni a b c d :: s) = u ++ decode s' := by
  cases hp : (headUnit s).bind (pair (unit a b c d)) with
  | none =>
    left
    simp [decode, decodeFrom, hp]
  | some n =>
    obtain ⟨lo, hlo, hpair⟩ := Option.bind_eq_some_iff.1 hp
    cases s with
    | nil => simp [headUnit] at hlo
    | cons i s =>
      cases i with
      | raw | esc => simp [headUnit] at hlo
      | uni a' b' c' d' =>
        refine .inr ⟨?_, _, s, utf8 n, rfl, pair_some hpair, ?_⟩
        · unfold pair at hpair
          split at hpair
          · rename_i h
            exact h.1
          · cases hpair
        · simp only [decode, decodeFrom, hp]

/-- The code writes one byte for an item, UTF-8 at least one. -/
theorem decode_length (s : List Item) : s.length ≤ (decode s).length := by
  induction hn : s.length using Nat.strong_induction_on generalizing s with
  | _ n ih =>
    subst hn
    cases s with
    | nil => exact Nat.zero_le _
    | cons i s =>
      have hs : s.length ≤ (decode s).length := ih s.length (by simp) s rfl
      cases i with
      | raw b hb => exact Nat.succ_le_succ hs
      | esc e => exact Nat.succ_le_succ hs
      | uni a b c d =>
        obtain hone | ⟨-, i', s', u, rfl, hu, htwo⟩ := decode_uni a b c d s
        · have := utf8_length (unit a b c d)
          rw [hone, List.length_append, List.length_cons]
          omega
        · have := ih s'.length (by simp only [List.length_cons]; omega) s' rfl
          rw [htwo, List.length_append, List.length_cons, List.length_cons]
          omega

/-- Hexadecimal digits as the code reads them. -/
theorem hex_ascii (c d : HexDigit) (hc : c.value.val < 8) :
    (hex2num c.byte <<< 4) + hex2num d.byte = UInt8.ofNat (c.value.val * 16 + d.value.val) ↔
      ¬(d.upper = true ∧ 10 ≤ d.value.val) := by
  obtain ⟨c, cu⟩ := c
  obtain ⟨d, du⟩ := d
  revert c d
  cases cu <;> cases du <;> decide

theorem itemByte_uni {a b c d : HexDigit} (h : unit a b c d < 0x80) :
    itemByte (.uni a b c d) = UInt8.ofNat (unit a b c d) ↔ ¬(d.upper = true ∧ 10 ≤ d.value.val) := by
  unfold unit at h ⊢
  have ha : a.value.val = 0 := by omega
  have hb : b.value.val = 0 := by omega
  rw [ha, hb]
  simp only [Nat.zero_mul, Nat.zero_add]
  exact hex_ascii c d (by omega)

theorem decode_plain {s : List Item} (h : ∀ i ∈ s, ItemPlain i) : decode s = decoded s ∧ ∀ b ∈ decoded s, b ≠ 0 := by
  induction s with
  | nil => exact ⟨rfl, by simp [decoded]⟩
  | cons i s ih =>
    obtain ⟨heq, hzero⟩ := ih fun j hj => h j (List.mem_cons_of_mem _ hj)
    have hi := h i List.mem_cons_self
    have hcons : decode (i :: s) = itemByte i :: decode s ∧ itemByte i ≠ 0 := by
      cases i with
      | raw b hb => exact ⟨rfl, hb.1⟩
      | esc e => exact ⟨rfl, by cases e <;> decide⟩
      | uni a b c d =>
        obtain ⟨hpos, hlt, hlower⟩ := hi
        have hbyte := (itemByte_uni hlt).2 hlower
        obtain hone | ⟨hhigh, -⟩ := decode_uni a b c d s
        · refine ⟨by rw [hone, hbyte, utf8, if_pos hlt]; rfl, ?_⟩
          rw [hbyte]
          intro h0
          have := congrArg UInt8.toNat h0
          rw [UInt8.toNat_ofNat_of_lt' (Nat.lt_trans hlt (by decide))] at this
          exact absurd this (by simp; omega)
        · omega
    obtain ⟨hdecode, hne⟩ := hcons
    refine ⟨by rw [hdecode, heq]; rfl, fun b hb => ?_⟩
    obtain rfl | hb := List.mem_cons.1 (show b ∈ itemByte i :: decoded s from hb)
    · exact hne
    · exact hzero b hb

theorem plain_of_decode {s : List Item} (h : decode s = decoded s) (hzero : ∀ b ∈ decoded s, b ≠ 0) :
    ∀ i ∈ s, ItemPlain i := by
  induction s with
  | nil => simp
  | cons i s ih =>
    have hrest : ∀ b ∈ decoded s, b ≠ 0 := fun b hb => hzero b (List.mem_cons_of_mem _ hb)
    have hlen := decode_length s
    have hboth : ItemPlain i ∧ decode s = decoded s := by
      cases i with
      | raw b hb => exact ⟨trivial, List.tail_eq_of_cons_eq h⟩
      | esc e => exact ⟨trivial, List.tail_eq_of_cons_eq h⟩
      | uni a b c d =>
        have hcount : (decoded s).length = s.length := List.length_map _
        obtain hone | ⟨-, i', s', u, rfl, hu, htwo⟩ := decode_uni a b c d s
        · rw [hone] at h
          have hsize := congrArg List.length h
          rw [List.length_append, decoded, List.map_cons, List.length_cons, ← decoded, hcount] at hsize
          obtain ⟨-, hlt⟩ | ⟨htwo, -⟩ := utf8_length (unit a b c d)
          · rw [utf8, if_pos hlt] at h
            obtain ⟨hbyte, htail⟩ := List.cons_eq_cons.1 h
            refine ⟨⟨?_, hlt, (itemByte_uni hlt).1 hbyte.symm⟩, htail⟩
            by_contra hpos
            have hne := hzero (itemByte (.uni a b c d)) List.mem_cons_self
            rw [← hbyte, show unit a b c d = 0 by omega] at hne
            exact hne rfl
          · omega
        · rw [htwo] at h
          have hsize := congrArg List.length h
          have hshort := decode_length s'
          rw [List.length_append, hu, decoded, List.length_map, List.length_cons, List.length_cons] at hsize
          omega
    intro j hj
    obtain rfl | hj := List.mem_cons.1 hj
    · exact hboth.1
    · exact ih hboth.2 hrest j hj

/-- The code reads the string right exactly when it reads its items right. -/
theorem decoded_eq_iff (s : List Item) : cString (decoded s) = decode s ↔ ∀ i ∈ s, ItemPlain i := by
  constructor
  · intro h
    have hle : ((decoded s).takeWhile (· != 0)).length ≤ (decoded s).length := (List.takeWhile_prefix _).length_le
    have hlen := decode_length s
    have hcount : (decoded s).length = s.length := List.length_map _
    have hall : cString (decoded s) = decoded s := by
      refine (List.takeWhile_prefix _).eq_of_length ?_
      have : ((decoded s).takeWhile (· != 0)).length = (decode s).length := congrArg List.length h
      omega
    refine plain_of_decode (h.symm.trans hall) fun b hb => ?_
    have := List.takeWhile_eq_self_iff.1 hall b hb
    simpa using this
  · intro h
    obtain ⟨heq, hzero⟩ := decode_plain h
    rw [heq, cString, List.takeWhile_eq_self_iff.2 fun b hb => by simpa using hzero b hb]

end JobArranger.ZbxJson
