import JobArranger.L1Data.Value
import Mathlib.Data.List.TakeWhile

/-!
# Replacing variables in a text (`jalibs/javalue.c`)

`ja_replace_variable` copies a text and puts the value of a before-variable
in place of `$NAME` and `${NAME}`, and `$` in place of `$$`. A name is
copied into `variable_name[JA_MAX_DATA_LEN]` before its length is looked at.

* `replace_prefix`: along a part of the text that can be substituted the
  loop writes what is substituted.
* `replace_succeed`, `replace_overrun`: where a success and an overrun of
  `variable_name` come from.
* `documented_iff`: the substitution is as documented exactly when no long
  name is reached and the names in use are plain.
-/
namespace JobArranger.Replace

/-! ## The source -/

structure Variable where
  name : Text
  value : Text
  deriving DecidableEq, Repr

/-- `JA_MAX_DATA_LEN` -/
def maxDataLen : Nat := 4096

/-- `JA_VALUE_NAME_LEN - 1` -/
def valueNameLen : Nat := 128

/-- How the replacement ends. `overrun` is a name copied beyond the end of
`variable_name`. -/
inductive End where
  | succeed | fail | overrun
  deriving DecidableEq, Repr

/-- A byte that ends a name: `$`, CR, LF or a closing brace. -/
def endsName (c : UInt8) : Bool := c == 36 || c == 13 || c == 10 || c == 125

/-- The value found for a name: `val[idx].name` holds 128 bytes at most. -/
def find (vars : List Variable) (variableName : Text) : Option Text :=
  (vars.find? fun v => v.name.length == variableName.length && v.name.take valueNameLen == variableName).map (·.value)

/-- The loop over `value_src`: `dlen` is the room left and `dd` what was
written into `value_dest`. mirrors src/jalibs/javalue.c:1033-1145 -/
def replaceLoop (vars : List Variable) : Nat → Text → Nat → Text → End × Text
  | 0, _, _, dd => (.fail, dd)
  | _ + 1, [], _, dd => (.succeed, dd)
  | fuel + 1, c :: ss, dlen, dd =>
    if c ≠ 36 then
      if dlen < 1 then (.fail, dd) else replaceLoop vars fuel ss (dlen - 1) (dd ++ [c])
    else if ss.head? = some 36 then
      if dlen < 1 then (.fail, dd) else replaceLoop vars fuel ss.tail (dlen - 1) (dd ++ [c])
    else
      let brace : Int := if ss.head? = some 123 then 1 else 0
      let vv := if ss.head? = some 123 then ss.tail else ss
      let variableName := vv.takeWhile fun c => !endsName c
      let ss := vv.dropWhile fun c => !endsName c
      let brace := if ss.head? = some 125 then brace - 1 else brace
      if variableName = [] then (.fail, dd)
      else if variableName.length ≥ maxDataLen then (.overrun, dd)
      else if brace ≠ 0 then (.fail, dd)
      else if variableName.length > valueNameLen then (.fail, dd)
      else match find vars variableName with
        | none => (.fail, dd)
        | some value =>
          if value.length > dlen then (.fail, dd)
          else replaceLoop vars fuel (if ss.head? = some 125 then ss.tail else ss) (dlen - value.length) (dd ++ value)

/-- How it ends, and the bytes of `value_dest` that were written (before the
NUL of a success). mirrors src/jalibs/javalue.c:964-1153 -/
def jaReplaceVariable (vars : List Variable) (valueSrc : Text) (destLen : Nat) : End × Text :=
  if destLen < 1 then (.fail, [])
  else if vars = [] then (.fail, [])
  else replaceLoop vars (valueSrc.length + 1) valueSrc (destLen - 1) []

/-! ## The substitution -/

/-- The value of a name: the first row that has it. -/
def lookup (vars : List Variable) (name : Text) : Option Text := (vars.find? fun v => v.name == name).map (·.value)

/-- The text ends here, or goes on with `$`, CR or LF. -/
def EndsHere (s : Text) : Prop := ∀ c, s.head? = some c → c = 36 ∨ c = 13 ∨ c = 10

/-- What a text is substituted to: ordinary characters, `$$`, `$NAME` and
`${NAME}`, for names with the property `P`. `${` begins the form with braces. -/
inductive Substitutes (P : Text → Prop) (vars : List Variable) : Text → Text → Prop
  | nil : Substitutes P vars [] []
  | char {c s t} : c ≠ 36 → Substitutes P vars s t → Substitutes P vars (c :: s) (c :: t)
  | dollar {s t} : Substitutes P vars s t → Substitutes P vars (36 :: 36 :: s) (36 :: t)
  | bare {name value s t} : name ≠ [] → name.head? ≠ some 123 → (∀ c ∈ name, c ≠ 36 ∧ c ≠ 13 ∧ c ≠ 10) → EndsHere s →
      P name → lookup vars name = some value → Substitutes P vars s t →
      Substitutes P vars (36 :: (name ++ s)) (value ++ t)
  | brace {name value s t} : name ≠ [] → 125 ∉ name → P name → lookup vars name = some value →
      Substitutes P vars s t → Substitutes P vars (36 :: 123 :: (name ++ 125 :: s)) (value ++ t)

/-- A name the loop can take: at most 128 bytes, none of which ends a name. -/
def Plain (name : Text) : Prop := name.length ≤ valueNameLen ∧ ∀ c ∈ name, endsName c = false

instance (name : Text) : Decidable (Plain name) :=
  @instDecidableAnd _ _ (Nat.decLe _ _) (List.decidableBAll (fun c => endsName c = false) name)

/-- The name behind a `$`. -/
def nameBehind (s : Text) : Text := (if s.head? = some 123 then s.tail else s).takeWhile fun c => !endsName c

/-- The documented substitution, within its buffers. -/
structure Documented (vars : List Variable) (valueSrc : Text) (destLen : Nat) : Prop where
  succeeds : ∀ text, Substitutes (fun _ => True) vars valueSrc text → text.length < destLen →
    jaReplaceVariable vars valueSrc destLen = (.succeed, text)
  fails : (¬ ∃ text, Substitutes (fun _ => True) vars valueSrc text ∧ text.length < destLen) →
    (jaReplaceVariable vars valueSrc destLen).1 = .fail
  dest : (jaReplaceVariable vars valueSrc destLen).2.length < destLen
  name : (jaReplaceVariable vars valueSrc destLen).1 ≠ .overrun

/-- No name of 4096 bytes or more stands where the text before it can be
substituted. -/
def ShortNames (vars : List Variable) (valueSrc : Text) (destLen : Nat) : Prop :=
  ∀ pre text s, valueSrc = pre ++ 36 :: s → Substitutes Plain vars pre text → text.length < destLen →
    s.head? ≠ some 36 → (nameBehind s).length < maxDataLen

/-- Where the text can be substituted it can be with plain names. -/
def PlainNames (vars : List Variable) (valueSrc : Text) (destLen : Nat) : Prop :=
  ∀ text, Substitutes (fun _ => True) vars valueSrc text → text.length < destLen →
    Substitutes Plain vars valueSrc text

/-! ## Names -/

variable {vars : List Variable}

/-- A plain name is found under its first row. -/
theorem find_plain {name : Text} (h : name.length ≤ valueNameLen) : find vars name = lookup vars name := by
  have hp : ∀ v : Variable, (v.name.length == name.length && v.name.take valueNameLen == name) = (v.name == name) := by
    intro v
    rw [Bool.eq_iff_iff]
    simp only [Bool.and_eq_true, beq_iff_eq]
    constructor
    · rintro ⟨hl, ht⟩
      rwa [List.take_of_length_le (by omega)] at ht
    · rintro rfl
      exact ⟨rfl, List.take_of_length_le h⟩
  simp only [find, lookup, hp]

theorem endsName_iff {c : UInt8} : endsName c = true ↔ c = 36 ∨ c = 13 ∨ c = 10 ∨ c = 125 := by
  simp [endsName, or_assoc]

/-- The name behind a `$` is read up to what ends it. -/
theorem takeWhile_name {name : Text} (h : ∀ c ∈ name, endsName c = false) {s : Text}
    (hs : ∀ c, s.head? = some c → endsName c = true) :
    (name ++ s).takeWhile (fun c => !endsName c) = name ∧ (name ++ s).dropWhile (fun c => !endsName c) = s := by
  have hall : ∀ c ∈ name, (!endsName c) = true := fun c hc => by simp [h c hc]
  cases s with
  | nil => simpa using h
  | cons d s =>
    have hd : endsName d = true := hs d rfl
    simp [List.takeWhile_append_of_pos hall, List.dropWhile_append_of_pos hall, hd]

/-! ## Along what can be substituted -/

/-- Along a part that can be substituted, and fits, the loop writes its
substitution and stands behind it: by induction on the substitution. -/
theorem replace_prefix {pre text : Text} (h : Substitutes Plain vars pre text) :
    ∀ (fuel dlen : Nat) (rest dd : Text), (pre ++ rest).length < fuel →
      (∀ c, rest.head? = some c → c = 36) → text.length ≤ dlen →
      ∃ fuel', rest.length < fuel' ∧
        replaceLoop vars fuel (pre ++ rest) dlen dd = replaceLoop vars fuel' rest (dlen - text.length) (dd ++ text) := by
  induction h with
  | nil => intro fuel dlen rest dd hf _ _; exact ⟨fuel, hf, by simp⟩
  | @char c s t hc _ ih =>
    intro fuel dlen rest dd hf hr hlen
    obtain ⟨fuel, rfl⟩ : ∃ k, fuel = k + 1 := ⟨fuel - 1, by omega⟩
    simp only [List.cons_append, List.length_cons] at hf hlen ⊢
    obtain ⟨fuel', hf', he⟩ := ih fuel (dlen - 1) rest (dd ++ [c]) (by omega) hr (by omega)
    refine ⟨fuel', hf', ?_⟩
    rw [replaceLoop, if_pos hc, if_neg (by omega), he, Nat.sub_sub, Nat.add_comm 1]
    simp
  | @dollar s t _ ih =>
    intro fuel dlen rest dd hf hr hlen
    obtain ⟨fuel, rfl⟩ : ∃ k, fuel = k + 1 := ⟨fuel - 1, by omega⟩
    simp only [List.cons_append, List.length_cons] at hf hlen ⊢
    obtain ⟨fuel', hf', he⟩ := ih fuel (dlen - 1) rest (dd ++ [36]) (by omega) hr (by omega)
    refine ⟨fuel', hf', ?_⟩
    rw [replaceLoop, if_neg (by simp), if_pos (by simp), if_neg (by omega), List.tail_cons, he, Nat.sub_sub,
      Nat.add_comm 1]
    simp
  | @bare name value s t hne hb _ hend hp hl _ ih =>
    intro fuel dlen rest dd hf hr hlen
    obtain ⟨fuel, rfl⟩ : ∃ k, fuel = k + 1 := ⟨fuel - 1, by omega⟩
    simp only [List.cons_append, List.length_cons, List.length_append, List.append_assoc] at hf hlen ⊢
    have hhead : (name ++ (s ++ rest)).head? = name.head? := List.head?_append_of_ne_nil _ hne
    have hrest : ∀ c, (s ++ rest).head? = some c → c = 36 ∨ c = 13 ∨ c = 10 := by
      intro c hc
      cases s with
      | nil => exact .inl (hr c hc)
      | cons d s => exact hend c hc
    obtain ⟨htake, hdrop⟩ := takeWhile_name hp.2 (s := s ++ rest) fun c hc =>
      endsName_iff.2 ((hrest c hc).imp id (Or.imp id Or.inl))
    have hdollar : name.head? ≠ some 36 := by
      intro hc
      have := hp.2 36 (List.mem_of_mem_head? hc)
      exact absurd this (by decide)
    have hopen : (s ++ rest).head? ≠ some 125 := by
      intro hc
      rcases hrest 125 hc with h | h | h <;> exact absurd h (by decide)
    have hshort : name.length < maxDataLen := by have := hp.1; simp only [valueNameLen, maxDataLen] at *; omega
    obtain ⟨fuel', hf', he⟩ := ih fuel (dlen - value.length) rest (dd ++ value)
      (by rw [List.length_append]; omega) hr (by omega)
    refine ⟨fuel', hf', ?_⟩
    rw [replaceLoop, if_neg (by simp), hhead, if_neg hdollar]
    simp only [hb, if_false, htake, hdrop, hopen, hne, find_plain hp.1, hl, ge_iff_le, Nat.not_le.2 hshort,
      ne_eq, not_true_eq_false, gt_iff_lt, Nat.not_lt.2 hp.1, show ¬ dlen < value.length by omega]
    rw [he, Nat.sub_sub, List.append_assoc]
  | @brace name value s t hne _ hp hl _ ih =>
    intro fuel dlen rest dd hf hr hlen
    obtain ⟨fuel, rfl⟩ : ∃ k, fuel = k + 1 := ⟨fuel - 1, by omega⟩
    simp only [List.cons_append, List.length_cons, List.length_append, List.append_assoc] at hf hlen ⊢
    obtain ⟨htake, hdrop⟩ := takeWhile_name hp.2 (s := 125 :: (s ++ rest)) fun c hc =>
      endsName_iff.2 (by rw [← Option.some.inj hc]; simp)
    have hshort : name.length < maxDataLen := by have := hp.1; simp only [valueNameLen, maxDataLen] at *; omega
    obtain ⟨fuel', hf', he⟩ := ih fuel (dlen - value.length) rest (dd ++ value)
      (by rw [List.length_append]; omega) hr (by omega)
    refine ⟨fuel', hf', ?_⟩
    rw [replaceLoop, if_neg (by simp), if_neg (by simp)]
    simp only [List.head?_cons, if_true, List.tail_cons, htake, hdrop, hne, if_false, find_plain hp.1, hl, ge_iff_le,
      Nat.not_le.2 hshort, Int.sub_self, ne_eq, not_true_eq_false, gt_iff_lt, Nat.not_lt.2 hp.1,
      show ¬ dlen < value.length by omega]
    rw [he, Nat.sub_sub, List.append_assoc]

/-! ## Where an end comes from -/

/-- What the loop may do with a text: it writes at most the room it has, a
success has substituted the text, and an overrun stands at a long name. -/
structure Explained (vars : List Variable) (ss : Text) (dlen : Nat) (dd : Text) (r : End × Text) : Prop where
  room : ∃ x, r.2 = dd ++ x ∧ x.length ≤ dlen
  succeed : r.1 = .succeed → ∃ t, r.2 = dd ++ t ∧ Substitutes Plain vars ss t ∧ t.length ≤ dlen
  overrun : r.1 = .overrun → ∃ pre t s, ss = pre ++ 36 :: s ∧ Substitutes Plain vars pre t ∧ t.length ≤ dlen ∧
    s.head? ≠ some 36 ∧ maxDataLen ≤ (nameBehind s).length

theorem Explained.fail (ss : Text) (dlen : Nat) (dd : Text) : Explained vars ss dlen dd (.fail, dd) :=
  ⟨⟨[], by simp⟩, fun h => End.noConfusion h, fun h => End.noConfusion h⟩

/-- One piece of the text, and then the rest. -/
theorem Explained.piece {p v next dd : Text} {dlen : Nat} {r : End × Text}
    (h : Explained vars next (dlen - v.length) (dd ++ v) r) (hv : v.length ≤ dlen)
    (hp : ∀ s t, s <+: next → Substitutes Plain vars s t → Substitutes Plain vars (p ++ s) (v ++ t)) :
    Explained vars (p ++ next) dlen dd r := by
  constructor
  · obtain ⟨x, hx, hlen⟩ := h.room
    exact ⟨v ++ x, by rw [hx, List.append_assoc], by rw [List.length_append]; omega⟩
  · intro hr
    obtain ⟨t, ht, hs, hlen⟩ := h.succeed hr
    exact ⟨v ++ t, by rw [ht, List.append_assoc], hp next t (List.prefix_refl _) hs, by rw [List.length_append]; omega⟩
  · intro hr
    obtain ⟨pre, t, s, rfl, hs, hlen, hhead, hlong⟩ := h.overrun hr
    exact ⟨p ++ pre, v ++ t, s, by rw [List.append_assoc], hp pre t (List.prefix_append _ _) hs,
      by rw [List.length_append]; omega, hhead, hlong⟩

/-- A prefix of a text that ends or goes on after a name does so too. -/
theorem EndsHere.cut {s t : Text} (h : EndsHere t) (hs : s <+: t) : EndsHere s := by
  intro c hc
  cases s with
  | nil => simp at hc
  | cons d s =>
    obtain ⟨x, rfl⟩ := hs
    exact h c (by simpa using hc)

/-- The loop is explained by the text: by induction on the rounds, one piece
of the text in each. -/
theorem replaceLoop_explained : ∀ (fuel : Nat) (ss : Text) (dlen : Nat) (dd : Text), ss.length < fuel →
    Explained vars ss dlen dd (replaceLoop vars fuel ss dlen dd)
  | 0, _, _, _, h => absurd h (by omega)
  | fuel + 1, [], dlen, dd, _ =>
    ⟨⟨[], by simp [replaceLoop]⟩, fun _ => ⟨[], by simp [replaceLoop], .nil, by simp⟩, fun h => End.noConfusion h⟩
  | fuel + 1, c :: ss, dlen, dd, h => by
    rw [List.length_cons] at h
    rw [replaceLoop]
    split
    · -- a character
      rename_i hc
      split
      · exact .fail _ _ _
      · have hroom : [c].length ≤ dlen := by simp only [List.length_singleton]; omega
        exact (replaceLoop_explained fuel ss (dlen - 1) (dd ++ [c]) (by omega)).piece (p := [c]) hroom
          fun s t _ hs => .char hc hs
    rename_i hc
    obtain rfl : c = 36 := not_not.1 hc
    split
    · -- `$$`
      rename_i hd
      obtain ⟨ss, rfl⟩ : ∃ ss', ss = 36 :: ss' := by
        cases ss with
        | nil => simp at hd
        | cons d ss => exact ⟨ss, by rw [Option.some.inj hd]⟩
      rw [List.length_cons] at h
      split
      · exact .fail _ _ _
      · have hroom : [(36 : UInt8)].length ≤ dlen := by simp only [List.length_singleton]; omega
        exact (replaceLoop_explained fuel ss (dlen - 1) (dd ++ [36]) (by omega)).piece (p := [36, 36]) hroom
          fun s t _ hs => .dollar hs
    rename_i hd
    dsimp only
    generalize hvv : (if ss.head? = some 123 then ss.tail else ss) = vv
    have hsplit : vv.takeWhile (fun c => !endsName c) ++ vv.dropWhile (fun c => !endsName c) = vv :=
      List.takeWhile_append_dropWhile
    have hplain : ∀ c ∈ vv.takeWhile fun c => !endsName c, endsName c = false := fun c hc => by
      simpa using List.mem_takeWhile_imp hc
    have hends : ∀ c, (vv.dropWhile fun c => !endsName c).head? = some c → endsName c = true := fun c hc => by
      have := List.head?_dropWhile_not (fun c => !endsName c) vv
      simpa [hc] using this
    have hbehind : nameBehind ss = vv.takeWhile fun c => !endsName c := by rw [nameBehind, hvv]
    generalize vv.takeWhile (fun c => !endsName c) = name at *
    generalize vv.dropWhile (fun c => !endsName c) = rest at *
    generalize hb : (if rest.head? = some 125 then (if ss.head? = some 123 then 1 else 0 : Int) - 1
      else if ss.head? = some 123 then 1 else 0) = brace
    generalize hnext : (if rest.head? = some 125 then rest.tail else rest) = next
    split
    · exact .fail _ _ _
    rename_i hne
    split
    · -- the name is copied beyond `variable_name`
      rename_i hlong
      exact ⟨⟨[], by simp⟩, fun h => End.noConfusion h,
        fun _ => ⟨[], [], ss, rfl, .nil, by simp, hd, by rw [hbehind]; exact hlong⟩⟩
    split
    · exact .fail _ _ _
    rename_i hbrace
    split
    · exact .fail _ _ _
    rename_i hlen
    have hname : Plain name := ⟨by omega, hplain⟩
    split
    · exact .fail _ _ _
    rename_i value hfind
    have hlook : lookup vars name = some value := by rw [← find_plain hname.1]; exact hfind
    split
    · exact .fail _ _ _
    rename_i hroom
    have hroom : value.length ≤ dlen := by omega
    by_cases hopen : ss.head? = some 123
    · -- `${NAME}`
      obtain ⟨vs, rfl⟩ : ∃ vs, ss = 123 :: vs := by
        cases ss with
        | nil => simp at hopen
        | cons d ss => exact ⟨ss, by rw [Option.some.inj hopen]⟩
      obtain rfl : vs = vv := by simpa using hvv
      have hclose : rest.head? = some 125 := by
        by_contra hno
        simp [← hb, hno] at hbrace
      rw [if_pos hclose] at hnext
      obtain rfl : rest = 125 :: next := by
        cases rest with
        | nil => simp at hclose
        | cons d rest => rw [← hnext, Option.some.inj hclose, List.tail_cons]
      rw [← hsplit]
      have hlt : next.length < fuel := by
        rw [← hsplit] at h
        simp only [List.length_cons, List.length_append] at h
        omega
      have hnot : 125 ∉ name := fun hm => absurd (hplain 125 hm) (by decide)
      have hj := (replaceLoop_explained fuel next (dlen - value.length) (dd ++ value) hlt).piece
        (p := 36 :: 123 :: (name ++ [125])) hroom fun s t _ hs => by
          simpa using Substitutes.brace hne hnot hname hlook hs
      simpa using hj
    · -- `$NAME`
      obtain rfl : ss = vv := by simpa [hopen] using hvv
      have hclose : rest.head? ≠ some 125 := by
        intro hc
        simp [← hb, hopen, hc] at hbrace
      rw [if_neg hclose] at hnext
      subst hnext
      rw [← hsplit]
      have hlt : rest.length < fuel := by
        rw [← hsplit, List.length_append] at h
        omega
      have hend : EndsHere rest := by
        intro c hc
        rcases endsName_iff.1 (hends c hc) with h | h | h | h
        · exact .inl h
        · exact .inr (.inl h)
        · exact .inr (.inr h)
        · exact absurd (h ▸ hc) hclose
      have hhead : name.head? ≠ some 123 := by
        rw [← hsplit, List.head?_append_of_ne_nil _ hne] at hopen
        exact hopen
      have hbytes : ∀ c ∈ name, c ≠ 36 ∧ c ≠ 13 ∧ c ≠ 10 := by
        intro c hc
        have := hplain c hc
        refine ⟨?_, ?_, ?_⟩ <;> rintro rfl <;> exact absurd this (by decide)
      exact (replaceLoop_explained fuel rest (dlen - value.length) (dd ++ value) hlt).piece (p := 36 :: name) hroom
        fun s t hp hs => .bare hne hhead hbytes (hend.cut hp) hname hlook hs

/-! ## The whole text -/

/-- Only the names of variables matter. -/
theorem Substitutes.mono {P Q : Text → Prop} (h : ∀ name value, lookup vars name = some value → P name → Q name)
    {s t : Text} (hs : Substitutes P vars s t) : Substitutes Q vars s t := by
  induction hs with
  | nil => exact .nil
  | char hc _ ih => exact .char hc ih
  | dollar _ ih => exact .dollar ih
  | bare hne hb hn he hp hl _ ih => exact .bare hne hb hn he (h _ _ hl hp) hl ih
  | brace hne hn hp hl _ ih => exact .brace hne hn (h _ _ hl hp) hl ih

theorem replaceLoop_end {fuel : Nat} (h : 0 < fuel) (dlen : Nat) (dd : Text) :
    replaceLoop vars fuel [] dlen dd = (.succeed, dd) := by
  obtain ⟨fuel, rfl⟩ : ∃ k, fuel = k + 1 := ⟨fuel - 1, by omega⟩
  rfl

/-- A long name is copied, whatever stands behind it. -/
theorem replaceLoop_long {s : Text} (hd : s.head? ≠ some 36) (hlong : maxDataLen ≤ (nameBehind s).length) {fuel : Nat}
    (h : 0 < fuel) (dlen : Nat) (dd : Text) : (replaceLoop vars fuel (36 :: s) dlen dd).1 = .overrun := by
  obtain ⟨fuel, rfl⟩ : ∃ k, fuel = k + 1 := ⟨fuel - 1, by omega⟩
  have hne : nameBehind s ≠ [] := by
    intro hnil
    rw [hnil] at hlong
    exact absurd hlong (by decide)
  rw [nameBehind] at hlong hne
  rw [replaceLoop, if_neg (by simp), if_neg hd]
  dsimp only
  rw [if_neg hne, if_pos hlong]

/-- The text is substituted as documented, and no buffer is overrun, if and
only if no long name is reached and the names in use are plain. -/
theorem documented_iff (hv : vars ≠ []) (valueSrc : Text) {destLen : Nat} (hd : 1 ≤ destLen) :
    Documented vars valueSrc destLen ↔ ShortNames vars valueSrc destLen ∧ PlainNames vars valueSrc destLen := by
  have hrun : jaReplaceVariable vars valueSrc destLen =
      replaceLoop vars (valueSrc.length + 1) valueSrc (destLen - 1) [] := by
    rw [jaReplaceVariable, if_neg (by omega), if_neg hv]
  have hex : Explained vars valueSrc (destLen - 1) [] _ :=
    replaceLoop_explained (valueSrc.length + 1) valueSrc (destLen - 1) [] (by omega)
  rw [← hrun] at hex
  constructor
  · intro h
    refine ⟨fun pre text s hsrc hs hlen hhead => ?_, fun text hs hlen => ?_⟩
    · by_contra hlong
      refine h.name ?_
      obtain ⟨fuel', hf', he⟩ := replace_prefix hs (valueSrc.length + 1) (destLen - 1) (36 :: s) [] (by rw [← hsrc]; omega)
        (by simp) (by omega)
      rw [← hsrc] at he
      rw [hrun, he]
      exact replaceLoop_long hhead (by omega) (by omega) _ _
    · obtain ⟨t, ht, hp, -⟩ := hex.succeed (by rw [h.succeeds text hs hlen])
      rw [h.succeeds text hs hlen] at ht
      rwa [show text = t from ht]
  · rintro ⟨hshort, hplain⟩
    have hname : (jaReplaceVariable vars valueSrc destLen).1 ≠ .overrun := by
      intro ho
      obtain ⟨pre, t, s, hsrc, hs, hlen, hhead, hlong⟩ := hex.overrun ho
      have := hshort pre t s hsrc hs (by omega) hhead
      omega
    refine ⟨fun text hs hlen => ?_, fun hno => ?_, ?_, hname⟩
    · obtain ⟨fuel', hf', he⟩ := replace_prefix (hplain text hs hlen) (valueSrc.length + 1) (destLen - 1) [] []
        (by simp) (by simp) (by omega)
      rw [List.append_nil] at he
      rw [hrun, he]
      exact replaceLoop_end (by simpa using hf') _ _
    · cases hr : (jaReplaceVariable vars valueSrc destLen).1 with
      | succeed =>
        obtain ⟨t, -, hs, hlen⟩ := hex.succeed hr
        exact absurd ⟨t, hs.mono fun _ _ _ _ => trivial, by omega⟩ hno
      | fail => rfl
      | overrun => exact absurd hr hname
    · obtain ⟨x, hx, hlen⟩ := hex.room
      rw [hx, List.nil_append]
      omega

/-- Short texts reach no long name. -/
theorem shortNames_of_length {valueSrc : Text} (h : valueSrc.length ≤ maxDataLen) (destLen : Nat) :
    ShortNames vars valueSrc destLen := by
  intro pre text s hsrc _ _ _
  have hle : (nameBehind s).length ≤ s.length := by
    rw [nameBehind]
    refine (List.takeWhile_sublist _).length_le.trans ?_
    split
    · simp
    · exact Nat.le_refl _
  rw [hsrc, List.length_append, List.length_cons] at h
  omega

/-- Variables with plain names are used under plain names. -/
theorem plainNames_of_vars (h : ∀ v ∈ vars, Plain v.name) (valueSrc : Text) (destLen : Nat) :
    PlainNames vars valueSrc destLen := by
  have hplain : ∀ name value, lookup vars name = some value → Plain name := by
    intro name value hl
    obtain ⟨v, hv, -⟩ := Option.map_eq_some_iff.1 hl
    obtain rfl : v.name = name := by simpa using List.find?_some hv
    exact h v (List.mem_of_find?_eq_some hv)
  exact fun text hs _ => hs.mono fun name value hl _ => hplain name value hl

/-- `$$A$A` with the variable `A`, into six bytes. -/
theorem documented_one :
    [(⟨ascii "A", ascii "xyz"⟩ : Variable)] ≠ [] ∧ 1 ≤ 6 ∧
      Documented [⟨ascii "A", ascii "xyz"⟩] (ascii "$$A$A") 6 := by
  refine ⟨by decide, by decide, (documented_iff (by decide) _ (by decide)).2 ⟨?_, ?_⟩⟩
  · exact shortNames_of_length (by decide) _
  · refine plainNames_of_vars (fun v hv => ?_) _ _
    rw [List.mem_singleton.1 hv]
    decide

/-- A long name runs over `variable_name` before anything is looked up. -/
theorem jaReplaceVariable_long (hv : vars ≠ []) {n destLen : Nat} (hn : maxDataLen ≤ n) (hd : 1 ≤ destLen) :
    (jaReplaceVariable vars (36 :: List.replicate n 65) destLen).1 = .overrun := by
  have hhead : ∀ c : UInt8, c ≠ 65 → (List.replicate n (65 : UInt8)).head? ≠ some c := by
    intro c hc he
    exact hc (List.eq_of_mem_replicate (List.mem_of_mem_head? he))
  have hname : nameBehind (List.replicate n 65) = List.replicate n 65 := by
    rw [nameBehind, if_neg (hhead 123 (by decide))]
    exact List.takeWhile_eq_self_iff.2 fun c hc => by rw [List.eq_of_mem_replicate hc]; decide
  rw [jaReplaceVariable, if_neg (by omega), if_neg hv]
  exact replaceLoop_long (hhead 36 (by decide)) (by rw [hname, List.length_replicate]; exact hn) (by omega) _ _

theorem long_name_overruns :
    (jaReplaceVariable [⟨ascii "A", ascii "x"⟩] (36 :: List.replicate 4096 65) 1024).1 = .overrun ∧
      ¬ Documented [⟨ascii "A", ascii "x"⟩] (36 :: List.replicate 4096 65) 1024 := by
  have hover : (jaReplaceVariable [⟨ascii "A", ascii "x"⟩] (36 :: List.replicate 4096 65) 1024).1 = .overrun :=
    jaReplaceVariable_long (by decide) (by decide) (by decide)
  exact ⟨hover, fun h => h.name hover⟩

end JobArranger.Replace
