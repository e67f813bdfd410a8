import JobArranger.L1Data.Value
import Mathlib.Tactic.IntervalCases

/-!
# Passwords of the run user (`ConvertUtil.cs`, `jobarg_agent/jaagent.c`)

The job icon editor stores the password of the run user as a `1` and the
hexadecimal code of each character XORed with a cycling key. The editor
decodes it to show it again, the agent to log the user on. Both decoders
take two digits for each character; the encoder writes as many as the code
has. `dec` of the agent is a local array of 256 bytes that nothing clears.

* `getStringFromX16Password_encode`, `below_of_getStringFromX16Password`:
  the editor gets back what was entered exactly when each character is below
  U+0100.
* `decodeX16_encode`: what the agent writes into `dec`, and that it writes
  nothing else, no NUL either.
* `restores_iff`: when the password is restored on both sides.
-/
namespace JobArranger.Password

/-! ## The editor -/

def key : List UInt8 := ascii "199907"

def keyAt (j : Nat) : UInt8 := key.getD j 0

/-- `j++; if (j == key.Length) j = 0;` -/
def next (j : Nat) : Nat := if j + 1 = key.length then 0 else j + 1

/-- `Convert.ToString(b, 16)` -/
def toX16 (b : Nat) : List UInt16 := (Nat.toDigits 16 b).map fun c => UInt16.ofNat c.toNat

def encodeLoop : Nat → List UInt16 → List UInt16
  | _, [] => []
  | j, c :: str =>
    let b := c.toNat ^^^ (keyAt j).toNat
    (if b < 16 then 48 :: toX16 b else toX16 b) ++ encodeLoop (next j) str

/-- mirrors frontend/jobarg_manager/common/Utils/ConvertUtil.cs:93-124 -/
def getPasswordFromString (str : List UInt16) : List UInt16 := 49 :: encodeLoop 0 str

def decodeLoop : Nat → List UInt16 → List UInt16
  | _, [] => []
  | j, c :: password => (c ^^^ (keyAt j).toUInt16) :: decodeLoop (next j) password

/-- mirrors frontend/jobarg_manager/common/Utils/ConvertUtil.cs:126-139 -/
def getStringFromPassword (password : List UInt16) : List UInt16 := decodeLoop 0 password

/-- The value of a hexadecimal digit. -/
def hexVal (c : Nat) : Option Nat :=
  if 48 ≤ c ∧ c ≤ 57 then some (c - 48)
  else if 97 ≤ c ∧ c ≤ 102 then some (c - 87)
  else if 65 ≤ c ∧ c ≤ 70 then some (c - 55)
  else none

/-- The loop over the digits after the first character; `none` is the
exception of `Convert.ToInt32`. -/
def x16Loop : List UInt16 → Option (List UInt16)
  | a :: b :: rest => do
    let x ← hexVal a.toNat
    let y ← hexVal b.toNat
    let enc ← x16Loop rest
    some (UInt16.ofNat (16 * x + y) :: enc)
  | _ => some []

/-- mirrors frontend/jobarg_manager/common/Utils/ConvertUtil.cs:145-172 -/
def getStringFromX16Password (password : List UInt16) : Option (List UInt16) :=
  (x16Loop password.tail).map getStringFromPassword

/-- The characters `IsProhibitedCharacterUserPW` looks for. -/
def prohibited : List UInt16 := (ascii "\"/\\[];:|<>+=,?*").map UInt8.toUInt16

/-- What the editor asks of a password; `byteCount` is the number of bytes in
Shift_JIS. mirrors frontend/jobarg_manager/jobarg_manager/Form/JobEdit/Setting/JobSetting.xaml.cs:1051-1078 -/
def accepts (byteCount : List UInt16 → Nat) (str : List UInt16) : Bool :=
  byteCount str == str.length && !decide (byteCount str > 256) && str.all fun c => !prohibited.contains c

/-! ## The agent -/

/-- `strtol` of the two characters behind `0x`. -/
def strtolX16 (a b : UInt8) : Nat :=
  match hexVal a.toNat, hexVal b.toNat with
  | none, _ => 0
  | some x, none => x
  | some x, some y => 16 * x + y

/-- The loop over the digits; `none` is an index beyond `dec`. -/
def decodeX16 (dec : Vector UInt8 256) (j k : Nat) : List UInt8 → Option (Vector UInt8 256)
  | a :: b :: rest =>
    if h : k < 256 then decodeX16 (dec.set k (UInt8.ofNat (strtolX16 a b) ^^^ keyAt j)) (next j) (k + 1) rest else none
  | _ => some dec

/-- The loop over a password stored without digits. -/
def decodePlain (dec : Vector UInt8 256) (j i : Nat) : List UInt8 → Option (Vector UInt8 256)
  | [] => some dec
  | c :: rest => if h : i < 256 then decodePlain (dec.set i (c ^^^ keyAt j)) (next j) (i + 1) rest else none

/-- `dec` after the password of the run user was decoded; before, it holds
whatever was on the stack. mirrors src/jobarg_agent/jaagent.c:400,429-462 -/
def agentDecode (dec : Vector UInt8 256) (runUserPassword : Text) : Option (Vector UInt8 256) :=
  let passwd := runUserPassword.take 1023
  if passwd.head? = some 49 then decodeX16 dec 0 0 passwd.tail else decodePlain dec 0 0 passwd

/-! ## One character -/

/-- The digits of a code below 256 are two, and both decoders read them back. -/
theorem twoDigits {b : Nat} (h : b < 256) :
    ∃ x y, (if b < 16 then 48 :: toX16 b else toX16 b) = [x, y] ∧ x.toNat < 128 ∧ y.toNat < 128 ∧
      hexVal x.toNat = some (b / 16) ∧ hexVal y.toNat = some (b % 16) := by
  have hdigit : ∀ d < 16, (UInt16.ofNat (Nat.digitChar d).toNat).toNat < 128 ∧
      hexVal (UInt16.ofNat (Nat.digitChar d).toNat).toNat = some d := by
    intro d hd
    interval_cases d <;> decide
  by_cases hb : b < 16
  · have hdiv : b / 16 = 0 := by omega
    have hmod : b % 16 = b := by omega
    refine ⟨48, UInt16.ofNat (Nat.digitChar b).toNat, ?_, by decide, (hdigit b hb).1, ?_, ?_⟩
    · simp [hb, toX16, Nat.toDigits_of_lt_base hb]
    · rw [hdiv]; decide
    · rw [hmod]; exact (hdigit b hb).2
  · refine ⟨UInt16.ofNat (Nat.digitChar (b / 16)).toNat, UInt16.ofNat (Nat.digitChar (b % 16)).toNat, ?_,
      (hdigit _ (by omega)).1, (hdigit _ (by omega)).1, (hdigit _ (by omega)).2, (hdigit _ (by omega)).2⟩
    rw [if_neg hb, toX16, Nat.toDigits_of_base_le (by omega) (by omega), Nat.toDigits_of_lt_base (by omega)]
    rfl

theorem keyAt_lt (j : Nat) : (keyAt j).toNat < 256 := (keyAt j).toNat_lt

theorem xor_lt {a b : Nat} (ha : a < 256) (hb : b < 256) : a ^^^ b < 256 := Nat.xor_lt_two_pow (n := 8) ha hb

/-- The code of a character is written as two digits. -/
theorem encodeLoop_cons {c : UInt16} (hc : c.toNat < 256) (j : Nat) (str : List UInt16) :
    ∃ x y, encodeLoop j (c :: str) = x :: y :: encodeLoop (next j) str ∧ x.toNat < 128 ∧ y.toNat < 128 ∧
      hexVal x.toNat = some ((c.toNat ^^^ (keyAt j).toNat) / 16) ∧
      hexVal y.toNat = some ((c.toNat ^^^ (keyAt j).toNat) % 16) := by
  obtain ⟨x, y, hxy, hx, hy, hvx, hvy⟩ := twoDigits (xor_lt hc (keyAt_lt j))
  exact ⟨x, y, by simp only [encodeLoop, hxy, List.cons_append, List.nil_append], hx, hy, hvx, hvy⟩

/-! ## What the editor shows -/

theorem decodeLoop_decodeLoop (j : Nat) (p : List UInt16) : decodeLoop j (decodeLoop j p) = p := by
  induction p generalizing j with
  | nil => rfl
  | cons c p ih => simp only [decodeLoop, ih, UInt16.xor_assoc, UInt16.xor_self, UInt16.xor_zero]

theorem x16Loop_encode {p : List UInt16} (h : ∀ c ∈ p, c.toNat < 256) (j : Nat) :
    x16Loop (encodeLoop j p) = some (decodeLoop j p) := by
  induction p generalizing j with
  | nil => rfl
  | cons c p ih =>
    have hc : c.toNat < 256 := h c List.mem_cons_self
    obtain ⟨x, y, he, -, -, hx, hy⟩ := encodeLoop_cons hc j p
    have hcode : UInt16.ofNat (16 * ((c.toNat ^^^ (keyAt j).toNat) / 16) + (c.toNat ^^^ (keyAt j).toNat) % 16) =
        c ^^^ (keyAt j).toUInt16 := by
      rw [Nat.div_add_mod]
      apply UInt16.toNat_inj.mp
      simp
    rw [he, x16Loop, hx, hy, ih (fun d hd => h d (List.mem_cons_of_mem _ hd)) (next j)]
    simp only [Option.bind_eq_bind, Option.bind_some, hcode, decodeLoop]

theorem getStringFromX16Password_encode {p : List UInt16} (h : ∀ c ∈ p, c.toNat < 256) :
    getStringFromX16Password (getPasswordFromString p) = some p := by
  rw [getStringFromX16Password, getPasswordFromString, List.tail_cons, x16Loop_encode h, Option.map_some,
    getStringFromPassword, decodeLoop_decodeLoop]

theorem hexVal_lt {c x : Nat} (h : hexVal c = some x) : x < 16 := by
  unfold hexVal at h
  split at h
  · simp only [Option.some.injEq] at h; omega
  split at h
  · simp only [Option.some.injEq] at h; omega
  split at h
  · simp only [Option.some.injEq] at h; omega
  · exact absurd h (by simp)

/-- Two digits give a code below 256, whatever they were written for. -/
theorem x16Loop_lt : ∀ {s e : List UInt16}, x16Loop s = some e → ∀ c ∈ e, c.toNat < 256
  | [], e, h, c, hc => by simp [x16Loop] at h; simp [h] at hc
  | [_], e, h, c, hc => by simp [x16Loop] at h; simp [h] at hc
  | a :: b :: rest, e, h, c, hc => by
    simp only [x16Loop, Option.bind_eq_bind, Option.bind_eq_some_iff, Option.some.injEq] at h
    obtain ⟨x, hx, y, hy, enc, henc, rfl⟩ := h
    rcases List.mem_cons.1 hc with rfl | hc
    · have := hexVal_lt hx
      have := hexVal_lt hy
      rw [UInt16.toNat_ofNat']
      omega
    · exact x16Loop_lt henc c hc

theorem decodeLoop_lt {e : List UInt16} (h : ∀ c ∈ e, c.toNat < 256) (j : Nat) :
    ∀ c ∈ decodeLoop j e, c.toNat < 256 := by
  induction e generalizing j with
  | nil => simp [decodeLoop]
  | cons d e ih =>
    intro c hc
    rcases List.mem_cons.1 hc with rfl | hc
    · rw [UInt16.toNat_xor, UInt8.toNat_toUInt16]
      exact xor_lt (h d List.mem_cons_self) (keyAt_lt j)
    · exact ih (fun x hx => h x (List.mem_cons_of_mem _ hx)) (next j) c hc

theorem below_of_getStringFromX16Password {s p : List UInt16} (h : getStringFromX16Password s = some p) :
    ∀ c ∈ p, c.toNat < 256 := by
  obtain ⟨e, he, rfl⟩ := Option.map_eq_some_iff.1 h
  exact decodeLoop_lt (x16Loop_lt he) 0

/-! ## What the agent writes -/

/-- The agent writes the characters in order from `k` on and leaves the rest
of `dec` as it was: by induction on what is left of the password. -/
theorem decodeX16_encode {p : List UInt16} (h : ∀ c ∈ p, c.toNat < 256) (j : Nat) {k : Nat} (hk : k + p.length ≤ 256)
    (dec : Vector UInt8 256) :
    ∃ dec', decodeX16 dec j k ((encodeLoop j p).map UInt16.toUInt8) = some dec' ∧
      dec'.toList = dec.toList.take k ++ (p.map UInt16.toUInt8 ++ dec.toList.drop (k + p.length)) := by
  induction p generalizing j k dec with
  | nil => exact ⟨dec, rfl, by simp⟩
  | cons c p ih =>
    have hc : c.toNat < 256 := h c List.mem_cons_self
    rw [List.length_cons] at hk
    obtain ⟨x, y, he, hx, hy, hvx, hvy⟩ := encodeLoop_cons hc j p
    have hx8 : x.toUInt8.toNat = x.toNat := by rw [UInt16.toNat_toUInt8]; omega
    have hy8 : y.toUInt8.toNat = y.toNat := by rw [UInt16.toNat_toUInt8]; omega
    have hcode : UInt8.ofNat (strtolX16 x.toUInt8 y.toUInt8) ^^^ keyAt j = c.toUInt8 := by
      have hxor : (c.toNat ^^^ (keyAt j).toNat) ^^^ (keyAt j).toNat = c.toNat := by
        rw [Nat.xor_assoc, Nat.xor_self, Nat.xor_zero]
      apply UInt8.toNat_inj.mp
      simp only [strtolX16, hx8, hy8, hvx, hvy, Nat.div_add_mod]
      rw [UInt8.toNat_xor, UInt8.toNat_ofNat', Nat.mod_eq_of_lt (xor_lt hc (keyAt_lt j)), hxor, UInt16.toNat_toUInt8,
        Nat.mod_eq_of_lt hc]
    have hlt : k < 256 := by omega
    obtain ⟨dec', hrun, hdec⟩ := ih (fun d hd => h d (List.mem_cons_of_mem _ hd)) (next j) (k := k + 1) (by omega)
      (dec.set k c.toUInt8)
    refine ⟨dec', ?_, ?_⟩
    · simp only [he, List.map_cons, decodeX16, hlt, dite_true, hcode, hrun]
    · have hlen : k < dec.toList.length := by simpa using hlt
      have hset : (dec.toList.set k c.toUInt8).take (k + 1) = dec.toList.take k ++ [c.toUInt8] := by
        have hone : k + 1 - min k 256 = 1 := by omega
        rw [List.set_eq_take_append_cons_drop, if_pos hlen, List.take_append]
        simp [List.take_take, hone]
      rw [hdec, Vector.toList_set, List.drop_set_of_lt (by omega), hset, List.length_cons, Nat.add_right_comm,
        List.append_assoc]
      rfl

/-- The loop goes through the whole password, also where `dec` ends. -/
theorem agentDecode_encode (dec : Vector UInt8 256) {p : List UInt16} (h : ∀ c ∈ p, c.toNat < 256)
    (hp : p.length < 256) :
    ∃ dec', agentDecode dec ((getPasswordFromString p).map UInt16.toUInt8) = some dec' ∧
      dec'.toList = p.map UInt16.toUInt8 ++ dec.toList.drop p.length := by
  have hlen : ∀ (j : Nat) (q : List UInt16), (∀ c ∈ q, c.toNat < 256) → (encodeLoop j q).length = 2 * q.length := by
    intro j q
    induction q generalizing j with
    | nil => intro _; rfl
    | cons c q ih =>
      intro hq
      obtain ⟨x, y, he, -⟩ := encodeLoop_cons (hq c List.mem_cons_self) j q
      simp only [he, List.length_cons, ih (next j) fun d hd => hq d (List.mem_cons_of_mem _ hd)]
      omega
  have htake : ((getPasswordFromString p).map UInt16.toUInt8).take 1023 =
      49 :: (encodeLoop 0 p).map UInt16.toUInt8 := by
    apply List.take_of_length_le
    simp only [getPasswordFromString, List.map_cons, List.length_cons, List.length_map, hlen 0 p h]
    omega
  obtain ⟨dec', hrun, hdec⟩ := decodeX16_encode h 0 (k := 0) (by omega) dec
  refine ⟨dec', ?_, by simpa using hdec⟩
  simp only [agentDecode, htake, List.head?_cons, if_true, List.tail_cons, hrun]

/-! ## Both sides -/

/-- The password is restored on both sides: the editor shows it, and `dec`
holds it with a NUL behind it. -/
structure Restores (dec : Vector UInt8 256) (p : List UInt16) : Prop where
  editor : getStringFromX16Password (getPasswordFromString p) = some p
  agent : ∃ dec', agentDecode dec ((getPasswordFromString p).map UInt16.toUInt8) = some dec' ∧
    p ++ [0] <+: dec'.toList.map UInt8.toUInt16

/-- A password is restored if and only if its characters are below U+0100,
there are at most 255 of them, and `dec` happens to hold a NUL where the
password ends. -/
theorem restores_iff (dec : Vector UInt8 256) (p : List UInt16) :
    Restores dec p ↔ (∀ c ∈ p, c.toNat < 256) ∧ ∃ h : p.length < 256, dec[p.length] = 0 := by
  have hback : (∀ c ∈ p, c.toNat < 256) → (p.map UInt16.toUInt8).map UInt8.toUInt16 = p := by
    intro hc
    rw [List.map_map]
    refine (List.map_congr_left fun c hcp => ?_).trans (List.map_id p)
    apply UInt16.toNat_inj.mp
    rw [Function.comp_apply, UInt8.toNat_toUInt16, UInt16.toNat_toUInt8, Nat.mod_eq_of_lt (hc c hcp)]
    rfl
  have hnul : ∀ h : p.length < 256,
      [0] <+: (dec.toList.drop p.length).map UInt8.toUInt16 ↔ dec[p.length] = 0 := by
    intro h
    have hlen : p.length < dec.toList.length := by simpa using h
    have hzero : ∀ b : UInt8, 0 = b.toUInt16 ↔ b = 0 := by
      intro b
      rw [← UInt16.toNat_inj, ← UInt8.toNat_inj, UInt8.toNat_toUInt16]
      exact eq_comm
    rw [List.drop_eq_getElem_cons hlen, List.map_cons, List.cons_prefix_cons, hzero, Vector.getElem_toList]
    simp
  constructor
  · rintro ⟨heditor, dec', hrun, hpre⟩
    have hc := below_of_getStringFromX16Password heditor
    have hlen : p.length < 256 := by
      have := hpre.length_le
      simp only [List.length_append, List.length_singleton, List.length_map, Vector.length_toList] at this
      omega
    refine ⟨hc, hlen, ?_⟩
    obtain ⟨d, hd, hdec⟩ := agentDecode_encode dec hc hlen
    obtain rfl : d = dec' := Option.some.inj (hd.symm.trans hrun)
    rw [hdec, List.map_append, hback hc, List.prefix_append_right_inj] at hpre
    exact (hnul hlen).1 hpre
  · rintro ⟨hc, hlen, hz⟩
    obtain ⟨dec', hrun, hdec⟩ := agentDecode_encode dec hc hlen
    refine ⟨getStringFromX16Password_encode hc, dec', hrun, ?_⟩
    rw [hdec, List.map_append, hback hc, List.prefix_append_right_inj]
    exact (hnul hlen).2 hz

/-- The editor takes a half-width katakana `ア`, one byte in Shift_JIS, and
shows something else when the icon is opened again; and a password of plain
letters is followed by what was on the stack. -/
theorem katakana_lost :
    (∀ byteCount : List UInt16 → Nat, byteCount [0xFF71] = 1 → accepts byteCount [0xFF71] = true) ∧
      getStringFromX16Password (getPasswordFromString [0xFF71]) = some [0xCE, 0x79] ∧
      (∀ dec, ¬ Restores dec [0xFF71]) ∧ ¬ Restores (Vector.replicate 256 120) [97] := by
  refine ⟨?_, by decide, ?_, ?_⟩
  · intro byteCount h
    simp only [accepts, h]
    decide
  · intro dec h
    exact absurd h.editor (by decide)
  · rintro ⟨-, dec', hrun, hpre⟩
    obtain ⟨d, hd, hdec⟩ := agentDecode_encode (Vector.replicate 256 120) (p := [97]) (by simp) (by simp)
    obtain rfl : d = dec' := Option.some.inj (hd.symm.trans hrun)
    rw [hdec] at hpre
    exact absurd hpre (by decide)

end JobArranger.Password
