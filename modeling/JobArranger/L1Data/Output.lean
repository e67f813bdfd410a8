import JobArranger.Core.Utf8
import JobArranger.L1Data.Value
import Mathlib.Data.List.TakeWhile

/-!
# Job output as a variable (`jalibs/javalue.c`)

`ja_set_value_after` escapes a value, passes it byte by byte through a filter
into `dst[JA_STD_OUT_LEN]` and stores what comes out. The filter copies
ASCII, holds back the first two bytes of a three-byte character until the
third is there, and drops bytes of characters of two and four bytes. A lead
forgets the one before it, but the second byte held back stays.

* `filter_spec`: from any state between characters the output is well-formed
  exactly when the leads settle, and then its length is counted.
* `same_iff`: well-formed text comes out unchanged unless it has characters
  of two or four bytes.
* `stores_iff`: exactly which values a buffer of any size stores faithfully.
-/
namespace JobArranger.Output

open Utf8

/-- `JA_STD_OUT_LEN` -/
def stdOutLen : Nat := 64000 + 1

/-- `DBdyn_escape_string` with the byte it puts before each special one. -/
def escape (mark : UInt8 → Option UInt8) (v : Text) : Text := v.flatMap fun b => (mark b).toList ++ [b]

/-- Special bytes are ASCII, and are doubled or marked by a backslash. -/
def Marks (mark : UInt8 → Option UInt8) : Prop := ∀ b m, mark b = some m → b.toNat < 0x80 ∧ (m = b ∨ m = 92)

/-- The value is stored faithfully through a `dst` of `size` bytes: the last
byte written is the NUL behind the output. -/
structure Stores (size : Nat) (mark : UInt8 → Option UInt8) (v : Text) : Prop where
  bound : (filterValue (escape mark v)).length < size
  wellFormed : WellFormed (filterValue (escape mark v))
  same : WellFormed v → filterValue (escape mark v) = escape mark v

/-! ## What the input says -/

/-- The three-byte leads in order, each with the continuation bytes directly
behind it. -/
def leads : Text → List (UInt8 × Text)
  | [] => []
  | b :: e => if lead3 b then (b, e.takeWhile cont) :: leads e else leads e

/-- Behind each lead stand no continuation bytes; or one, which waits for the
next lead with any; or what completes a character, with the byte that waits
if there is one. -/
def Settles : Option UInt8 → List (UInt8 × Text) → Prop
  | _, [] => True
  | held, (_, []) :: ls => Settles held ls
  | none, (_, [c]) :: ls => Settles (some c) ls
  | none, (l, [c, d]) :: ls => Three l c d ∧ Settles none ls
  | some c, (l, [d]) :: ls => Three l c d ∧ Settles none ls
  | _, _ => False

/-- The characters completed that way. -/
def completed : Option UInt8 → List (UInt8 × Text) → Nat
  | _, [] => 0
  | held, (_, []) :: ls => completed held ls
  | none, (_, [c]) :: ls => completed (some c) ls
  | none, (_, _ :: _ :: _) :: ls => completed none ls + 1
  | some _, (_, _ :: _) :: ls => completed none ls + 1

/-- The bytes that are kept of text whose leads settle. -/
def kept (e : Text) : Nat := (e.countP fun b => b.toNat < 0x80) + 3 * completed none (leads e)

/-! ## One byte -/

theorem masks (b : UInt8) : (b &&& 0x80 = 0 ↔ b.toNat < 0x80) ∧ (b &&& 0xf0 = 0xe0 ↔ lead3 b = true) ∧
    (b &&& 0xc0 = 0x80 ↔ cont b = true) := by
  have h : ∀ n : Fin 256, (UInt8.ofNat n &&& 0x80 = 0 ↔ n.val < 0x80) ∧
      (UInt8.ofNat n &&& 0xf0 = 0xe0 ↔ 0xE0 ≤ n.val ∧ n.val ≤ 0xEF) ∧
      (UInt8.ofNat n &&& 0xc0 = 0x80 ↔ 0x80 ≤ n.val ∧ n.val ≤ 0xBF) := by decide +kernel
  simpa [lead3, cont] using h ⟨b.toNat, b.toNat_lt⟩

/-- A byte is ASCII, a lead of three, a continuation or another lead. -/
theorem byte_cases (b : UInt8) :
    b.toNat < 0x80 ∨ lead3 b = true ∨ (cont b = true ∧ lead3 b = false) ∨ otherLead b = true := by
  have := b.toNat_lt
  simp only [lead3, cont, otherLead, Bool.and_eq_true, Bool.or_eq_true, decide_eq_true_eq, Bool.and_eq_false_iff,
    decide_eq_false_iff_not]
  omega

theorem lead3_not_ascii {b : UInt8} (h : lead3 b = true) : ¬ b.toNat < 0x80 := by
  simp only [lead3, Bool.and_eq_true, decide_eq_true_eq] at h
  omega

theorem cont_not_ascii {b : UInt8} (h : cont b = true) : ¬ b.toNat < 0x80 := by
  simp only [cont, Bool.and_eq_true, decide_eq_true_eq] at h
  omega

theorem cont_not_lead {b : UInt8} (h : cont b = true) : lead3 b = false := by
  simp only [cont, lead3, Bool.and_eq_true, decide_eq_true_eq, Bool.and_eq_false_iff, decide_eq_false_iff_not] at *
  omega

theorem cont_ne_zero {b : UInt8} (h : cont b = true) : b ≠ 0 := by
  rintro rfl
  exact absurd h (by decide)

theorem lead3_ne_zero {b : UInt8} (h : lead3 b = true) : b ≠ 0 := by
  rintro rfl
  exact absurd h (by decide)

variable {b : UInt8} (s : FilterState)

theorem filterByte_ascii (h : b.toNat < 0x80) : filterByte s b = { s with dst := s.dst ++ [b], k := 0 } := by
  rw [filterByte, if_pos ((masks b).1.2 h)]

theorem filterByte_lead (h : lead3 b = true) : filterByte s b = { s with n1 := b, k := 1 } := by
  rw [filterByte, if_neg (mt (masks b).1.1 (lead3_not_ascii h)), if_pos ((masks b).2.1.2 h)]

theorem filterByte_other (h : otherLead b = true) : filterByte s b = { s with k := 0 } := by
  simp only [otherLead, Bool.or_eq_true, Bool.and_eq_true, decide_eq_true_eq] at h
  have ha : ¬ b.toNat < 0x80 := by omega
  have hl : ¬ lead3 b = true := by simp only [lead3, Bool.and_eq_true, decide_eq_true_eq]; omega
  have hc : ¬ cont b = true := by simp only [cont, Bool.and_eq_true, decide_eq_true_eq]; omega
  rw [filterByte, if_neg (mt (masks b).1.1 ha), if_neg (mt (masks b).2.1.1 hl),
    if_neg fun hk => hc ((masks b).2.2.1 hk.1)]

/-- A continuation byte with no lead before it is dropped. -/
theorem filterByte_idle (h : cont b = true) (hk : s.k = 0) : filterByte s b = { s with k := 0 } := by
  rw [filterByte, if_neg (mt (masks b).1.1 (cont_not_ascii h)),
    if_neg (mt (masks b).2.1.1 (by simp [cont_not_lead h])), if_neg (by omega)]

theorem filterByte_cont (h : cont b = true) (hk : 0 < s.k ∧ s.k < 7) :
    filterByte s b = if s.n1 ≠ 0 ∧ s.n2 = 0 then { s with n2 := b, k := s.k + 1 } else
      { dst := s.dst ++ (if s.n1 ≠ 0 then [s.n1] else []) ++ (if s.n2 ≠ 0 then [s.n2] else []) ++ [b]
        n1 := 0, n2 := 0, k := s.k + 1 } := by
  rw [filterByte, if_neg (mt (masks b).1.1 (cont_not_ascii h)),
    if_neg (mt (masks b).2.1.1 (by simp [cont_not_lead h])), if_pos ⟨(masks b).2.2.2 h, hk⟩]

/-- The filter only appends. -/
theorem foldl_dst (e : Text) : ∃ x, (e.foldl filterByte s).dst = s.dst ++ x := by
  induction e generalizing s with
  | nil => exact ⟨[], by simp⟩
  | cons b e ih =>
    have hstep : ∃ x, (filterByte s b).dst = s.dst ++ x := by
      unfold filterByte
      split
      · exact ⟨[b], rfl⟩
      · split
        · exact ⟨[], by simp⟩
        · split
          · split
            · exact ⟨[], by simp⟩
            · exact ⟨_, by simp only [List.append_assoc]; rfl⟩
          · exact ⟨[], by simp⟩
    obtain ⟨x, hx⟩ := hstep
    obtain ⟨y, hy⟩ := ih (filterByte s b)
    exact ⟨x ++ y, by rw [List.foldl_cons, hy, hx, List.append_assoc]⟩

/-! ## Between characters -/

/-- The second byte held back. -/
def held (n2 : UInt8) : Option UInt8 := if n2 = 0 then none else some n2

/-- The filter expects no continuation byte, or none comes. -/
def Between (s : FilterState) (e : Text) : Prop := s.k = 0 ∨ ∀ c, e.head? = some c → cont c = false

/-- The output is well-formed exactly when `ok` holds, and then `n` bytes
longer. -/
structure Judged (dst out : Text) (ok : Prop) (n : Nat) : Prop where
  good : ok → WellFormed out ∧ out.length = dst.length + n
  bad : ¬ ok → ¬ WellFormed out

theorem Judged.congr {dst out : Text} {ok ok' : Prop} {n n' : Nat} (h : Judged dst out ok n) (hok : ok' ↔ ok)
    (hn : ok → n' = n) : Judged dst out ok' n' :=
  ⟨fun hk => by rw [hn (hok.1 hk)]; exact h.good (hok.1 hk), fun hk => h.bad (mt hok.2 hk)⟩

theorem leads_conts {cs : Text} (h : ∀ c ∈ cs, cont c = true) (r : Text) : leads (cs ++ r) = leads r := by
  induction cs with
  | nil => rfl
  | cons c cs ih =>
    have hc := cont_not_lead (h c List.mem_cons_self)
    simp [leads, hc, ih fun d hd => h d (List.mem_cons_of_mem _ hd)]

theorem countP_conts {cs : Text} (h : ∀ c ∈ cs, cont c = true) (r : Text) :
    ((cs ++ r).countP fun b => b.toNat < 0x80) = r.countP fun b => b.toNat < 0x80 := by
  have hz : (cs.countP fun b => b.toNat < 0x80) = 0 := by
    rw [List.countP_eq_zero]
    intro c hc
    simpa using cont_not_ascii (h c hc)
  rw [List.countP_append, hz, Nat.zero_add]

/-- What the filter does with the rest of a text, as the induction gives it. -/
def FilterSpec (e : Text) : Prop :=
  ∀ s, Between s e → WellFormed s.dst →
    Judged s.dst (e.foldl filterByte s).dst (Settles (held s.n2) (leads e))
      ((e.countP fun b => b.toNat < 0x80) + 3 * completed (held s.n2) (leads e))

/-- With a lead and a second byte pending, the next continuation byte writes
a character; a further one is copied as it stands. -/
theorem judged_complete {dst : Text} {b m d : UInt8} {k : Nat} {cs r : Text} (hw : WellFormed dst) (hb : lead3 b = true)
    (hm : m ≠ 0) (hd : cont d = true) (hcs : ∀ c ∈ cs, cont c = true) (hk : 0 < k ∧ k < 6)
    (hr : ∀ c, r.head? = some c → cont c = false) (ih : FilterSpec r) :
    Judged dst ((d :: (cs ++ r)).foldl filterByte ⟨dst, b, m, k⟩).dst
      (cs = [] ∧ Three b m d ∧ Settles none (leads r))
      ((r.countP fun b => b.toNat < 0x80) + 3 * (completed none (leads r) + 1)) := by
  have hstep : filterByte ⟨dst, b, m, k⟩ d = ⟨dst ++ [b, m, d], 0, 0, k + 1⟩ := by
    rw [filterByte_cont _ hd (by constructor <;> simp only <;> omega)]
    simp [hm, lead3_ne_zero hb]
  rw [List.foldl_cons, hstep]
  cases cs with
  | nil =>
    by_cases h3 : Three b m d
    · have hw' : WellFormed (dst ++ [b, m, d]) := (wellFormed_append_iff hw _).2 (.three h3 .nil)
      have hj := ih ⟨dst ++ [b, m, d], 0, 0, k + 1⟩ (.inr hr) hw'
      constructor
      · rintro ⟨-, -, hs⟩
        obtain ⟨h1, h2⟩ := hj.good hs
        refine ⟨h1, h2.trans ?_⟩
        simp only [held, if_true, List.length_append, List.length_cons, List.length_nil]
        omega
      · exact fun hno => hj.bad fun hs => hno ⟨rfl, h3, hs⟩
    · obtain ⟨x, hx⟩ := foldl_dst ⟨dst ++ [b, m, d], 0, 0, k + 1⟩ r
      refine ⟨fun hok => absurd hok.2.1 h3, fun _ hwf => h3 ?_⟩
      rw [List.nil_append, hx, List.append_assoc, wellFormed_append_iff hw] at hwf
      exact ((wellFormed_lead3 hb m d x).1 hwf).1
  | cons c cs =>
    have hc : cont c = true := hcs c List.mem_cons_self
    have hstray : filterByte ⟨dst ++ [b, m, d], 0, 0, k + 1⟩ c = ⟨dst ++ [b, m, d] ++ [c], 0, 0, k + 1 + 1⟩ := by
      rw [filterByte_cont _ hc (by constructor <;> simp only <;> omega)]
      simp
    obtain ⟨x, hx⟩ := foldl_dst ⟨dst ++ [b, m, d] ++ [c], 0, 0, k + 1 + 1⟩ (cs ++ r)
    refine ⟨fun hok => absurd hok.1 (by simp), fun _ hwf => ?_⟩
    rw [List.cons_append, List.foldl_cons, hstray, hx, List.append_assoc, List.append_assoc,
      wellFormed_append_iff hw] at hwf
    exact wellFormed_cont hc x ((wellFormed_lead3 hb m d (c :: x)).1 hwf).2

/-- A byte that is dropped. -/
theorem judged_skip {s : FilterState} {b : UInt8} {e : Text} (hb : filterByte s b = { s with k := 0 })
    (ha : ¬ b.toNat < 0x80) (hl : lead3 b = false) (hw : WellFormed s.dst) (ih : FilterSpec e) :
    Judged s.dst (e.foldl filterByte (filterByte s b)).dst (Settles (held s.n2) (leads (b :: e)))
      (((b :: e).countP fun b => b.toNat < 0x80) + 3 * completed (held s.n2) (leads (b :: e))) := by
  rw [hb]
  refine (ih { s with k := 0 } (.inl rfl) hw).congr (by simp [leads, hl]) fun _ => ?_
  simp [leads, hl, ha]

/-- From a lead on: its continuation bytes and then the rest. -/
theorem judged_lead {s : FilterState} {b : UInt8} {cs r : Text} (hl : lead3 b = true)
    (hcs : ∀ c ∈ cs, cont c = true) (hr : ∀ c, r.head? = some c → cont c = false) (hw : WellFormed s.dst)
    (ih : FilterSpec r) :
    Judged s.dst ((cs ++ r).foldl filterByte (filterByte s b)).dst (Settles (held s.n2) ((b, cs) :: leads r))
      ((r.countP fun b => b.toNat < 0x80) + 3 * completed (held s.n2) ((b, cs) :: leads r)) := by
  rw [filterByte_lead s hl]
  cases cs with
  | nil =>
    exact (ih { s with n1 := b, k := 1 } (.inr hr) hw).congr (by simp [Settles]) fun _ => by simp [completed]
  | cons c cs =>
    have hc : cont c = true := hcs c List.mem_cons_self
    have hcs' : ∀ d ∈ cs, cont d = true := fun d hd => hcs d (List.mem_cons_of_mem _ hd)
    by_cases hn : s.n2 = 0
    · -- the second byte is held back
      have hstep : filterByte { s with n1 := b, k := 1 } c = ⟨s.dst, b, c, 2⟩ := by
        rw [filterByte_cont _ hc (by constructor <;> simp only <;> omega)]
        simp [hn, lead3_ne_zero hl]
      rw [List.cons_append, List.foldl_cons, hstep]
      cases cs with
      | nil =>
        have hj := ih ⟨s.dst, b, c, 2⟩ (.inr hr) hw
        have hheld : held c = some c := by simp [held, cont_ne_zero hc]
        rw [hheld] at hj
        exact hj.congr (by simp [held, hn, Settles]) fun _ => by simp [held, hn, completed]
      | cons d cs =>
        have hj := judged_complete hw hl (cont_ne_zero hc) (hcs' d List.mem_cons_self)
          (fun x hx => hcs' x (List.mem_cons_of_mem _ hx)) (by omega : 0 < 2 ∧ 2 < 6) hr ih
        refine hj.congr ?_ fun _ => by simp [held, hn, completed]
        cases cs <;> simp [held, hn, Settles]
    · -- the byte held back from an earlier lead takes the second place
      have hj := judged_complete (k := 1) hw hl hn hc hcs' (by omega) hr ih
      refine hj.congr ?_ fun _ => by simp [held, hn, completed]
      cases cs <;> simp [held, hn, Settles]

/-- From any state between characters the output is well-formed exactly when
the leads settle: by induction on the text, one lead with its continuation
bytes at a time. -/
theorem filter_spec (e : Text) : FilterSpec e := by
  intro s hbetween hw
  match e with
  | [] => exact ⟨fun _ => ⟨hw, by simp [leads, completed]⟩, fun hno => absurd trivial hno⟩
  | b :: e' =>
    rw [List.foldl_cons]
    rcases byte_cases b with ha | hl | ⟨hc, hl⟩ | ho
    · have hlead : lead3 b = false := Bool.eq_false_iff.2 fun h => lead3_not_ascii h ha
      have hj := filter_spec e' (filterByte s b) (by rw [filterByte_ascii s ha]; exact .inl rfl)
        (by rw [filterByte_ascii s ha]; exact (wellFormed_append_iff hw _).2 (.ascii ha .nil))
      rw [filterByte_ascii s ha] at hj ⊢
      constructor
      · intro hs
        obtain ⟨h1, h2⟩ := hj.good (by simpa [leads, hlead] using hs)
        refine ⟨h1, h2.trans ?_⟩
        simp only [leads, hlead, List.length_append, List.length_singleton, List.countP_cons, ha, decide_true, if_true,
          Bool.false_eq_true, if_false]
        omega
      · exact fun hs => hj.bad (by simpa [leads, hlead] using hs)
    · have hcs : ∀ c ∈ e'.takeWhile cont, cont c = true := fun c hc => List.mem_takeWhile_imp hc
      have hr : ∀ c, (e'.dropWhile cont).head? = some c → cont c = false := by
        intro c hc
        have := List.head?_dropWhile_not cont e'
        simpa [hc] using this
      have hle : (e'.dropWhile cont).length ≤ e'.length := List.length_dropWhile_le cont e'
      have hj := judged_lead hl hcs hr hw (filter_spec (e'.dropWhile cont))
      have hleads : leads (b :: e') = (b, e'.takeWhile cont) :: leads (e'.dropWhile cont) := by
        rw [leads, if_pos hl]
        congr 1
        conv_lhs => rw [← List.takeWhile_append_dropWhile (p := cont) (l := e'), leads_conts hcs]
      have hcount : ((b :: e').countP fun b => b.toNat < 0x80) = (e'.dropWhile cont).countP fun b => b.toNat < 0x80 := by
        conv_lhs =>
          rw [← List.takeWhile_append_dropWhile (p := cont) (l := e'), List.countP_cons, countP_conts hcs]
        simp [lead3_not_ascii hl]
      rw [List.takeWhile_append_dropWhile] at hj
      exact hj.congr (by rw [hleads]) fun _ => by rw [hleads, hcount]
    · have hk : s.k = 0 := by
        rcases hbetween with hk | hno
        · exact hk
        · exact absurd hc (by simp [hno b rfl])
      exact judged_skip (filterByte_idle s hc hk) (cont_not_ascii hc) hl hw (filter_spec e')
    · have hrange : ¬ b.toNat < 0x80 ∧ lead3 b = false := by
        simp only [otherLead, lead3, Bool.or_eq_true, Bool.and_eq_true, decide_eq_true_eq, Bool.and_eq_false_iff,
          decide_eq_false_iff_not] at *
        omega
      exact judged_skip (filterByte_other s ho) hrange.1 hrange.2 hw (filter_spec e')
termination_by e.length

/-! ## Text that comes out unchanged -/

/-- No byte of another lead is in the output. -/
theorem foldl_no_other {e : Text} (s : FilterState) (hd : ∀ b ∈ s.dst, otherLead b = false)
    (h1 : otherLead s.n1 = false) (h2 : otherLead s.n2 = false) :
    ∀ b ∈ (e.foldl filterByte s).dst, otherLead b = false := by
  induction e generalizing s with
  | nil => exact hd
  | cons b e ih =>
    rw [List.foldl_cons]
    have hzero : otherLead 0 = false := by decide
    rcases byte_cases b with ha | hl | ⟨hc, -⟩ | ho
    · have hb : otherLead b = false := by
        simp only [otherLead, Bool.or_eq_false_iff, Bool.and_eq_false_iff, decide_eq_false_iff_not]; omega
      rw [filterByte_ascii s ha]
      refine ih _ (fun x hx => ?_) h1 h2
      rcases List.mem_append.1 hx with hx | hx
      · exact hd x hx
      · rw [List.mem_singleton.1 hx]; exact hb
    · have hb : otherLead b = false := by
        simp only [lead3, otherLead, Bool.or_eq_false_iff, Bool.and_eq_true, decide_eq_true_eq, Bool.and_eq_false_iff,
          decide_eq_false_iff_not] at *
        omega
      rw [filterByte_lead s hl]
      exact ih _ hd hb h2
    · have hb : otherLead b = false := by
        simp only [cont, otherLead, Bool.or_eq_false_iff, Bool.and_eq_true, decide_eq_true_eq, Bool.and_eq_false_iff,
          decide_eq_false_iff_not] at *
        omega
      by_cases hk : 0 < s.k ∧ s.k < 7
      · rw [filterByte_cont s hc hk]
        split
        · exact ih _ hd h1 hb
        · refine ih _ (fun x hx => ?_) hzero hzero
          simp only [List.mem_append, List.mem_singleton] at hx
          rcases hx with ((hx | hx) | hx) | hx
          · exact hd x hx
          · split at hx
            · rw [List.mem_singleton.1 hx]; exact h1
            · exact absurd hx List.not_mem_nil
          · split at hx
            · rw [List.mem_singleton.1 hx]; exact h2
            · exact absurd hx List.not_mem_nil
          · rw [hx]; exact hb
      · have hskip : filterByte s b = { s with k := 0 } := by
          rw [filterByte, if_neg (mt (masks b).1.1 (cont_not_ascii hc)),
            if_neg (mt (masks b).2.1.1 (by simp [cont_not_lead hc])), if_neg fun h => hk h.2]
        rw [hskip]
        exact ih _ hd h1 h2
    · rw [filterByte_other s ho]
      exact ih _ hd h1 h2

variable {mark : UInt8 → Option UInt8}

/-- Only ASCII is escaped. -/
theorem escape_wide (h : Marks mark) {b : UInt8} (hb : ¬ b.toNat < 0x80) (v : Text) :
    escape mark (b :: v) = b :: escape mark v := by
  have hm : mark b = none := by
    cases hmark : mark b with
    | none => rfl
    | some m => exact absurd (h b m hmark).1 hb
  simp [escape, hm]

/-- Well-formed text of characters of one and three bytes goes through
whole, from a state with no second byte held back. -/
theorem foldl_escape (h : Marks mark) {v : Text} (hw : WellFormed v) (ho : ∀ b ∈ v, otherLead b = false)
    (s : FilterState) (hn : s.n2 = 0) :
    ((escape mark v).foldl filterByte s).dst = s.dst ++ escape mark v := by
  induction hw generalizing s with
  | nil => simp [escape]
  | @ascii a v ha _ ih =>
    have ih := ih fun b hb => ho b (List.mem_cons_of_mem _ hb)
    cases hmark : mark a with
    | none =>
      have he : escape mark (a :: v) = a :: escape mark v := by simp [escape, hmark]
      rw [he, List.foldl_cons, filterByte_ascii s ha, ih { s with dst := s.dst ++ [a], k := 0 } hn]
      simp
    | some m =>
      have hm : m.toNat < 0x80 := by
        rcases (h a m hmark).2 with rfl | rfl
        · exact ha
        · decide
      have he : escape mark (a :: v) = m :: a :: escape mark v := by simp [escape, hmark]
      rw [he, List.foldl_cons, filterByte_ascii s hm, List.foldl_cons, filterByte_ascii _ ha, ih _ (by simpa using hn)]
      simp
  | @two a b v ha ha' =>
    refine absurd (ho a List.mem_cons_self) ?_
    simp only [otherLead, Bool.or_eq_false_iff, Bool.and_eq_false_iff, decide_eq_false_iff_not]
    omega
  | @three a b c v h3 _ ih =>
    have ih := ih fun x hx => ho x (by simp [hx])
    have hl := h3.1.lead
    have hb := h3.1.cont
    have hc := h3.2
    rw [escape_wide h (lead3_not_ascii hl), escape_wide h (cont_not_ascii hb), escape_wide h (cont_not_ascii hc)]
    have hfirst : filterByte { s with n1 := a, k := 1 } b = ⟨s.dst, a, b, 2⟩ := by
      rw [filterByte_cont _ hb (by constructor <;> simp only <;> omega)]
      simp [hn, lead3_ne_zero hl]
    have hlast : filterByte ⟨s.dst, a, b, 2⟩ c = ⟨s.dst ++ [a, b, c], 0, 0, 3⟩ := by
      rw [filterByte_cont _ hc (by constructor <;> simp only <;> omega)]
      simp [cont_ne_zero hb, lead3_ne_zero hl]
    rw [List.foldl_cons, filterByte_lead s hl, List.foldl_cons, hfirst, List.foldl_cons, hlast, ih _ rfl]
    simp
  | @four a b c d v h4 =>
    refine absurd (ho a List.mem_cons_self) ?_
    have := h4.lead
    simp only [otherLead, Bool.or_eq_false_iff, decide_eq_false_iff_not]
    omega

/-- Well-formed text comes out unchanged exactly when it has no character of
two or four bytes. -/
theorem same_iff (h : Marks mark) {v : Text} (hw : WellFormed v) :
    filterValue (escape mark v) = escape mark v ↔ ∀ b ∈ v, otherLead b = false := by
  constructor
  · intro hsame b hb
    have hin : b ∈ escape mark v := List.mem_flatMap.2 ⟨b, hb, by simp⟩
    rw [← hsame] at hin
    exact foldl_no_other ⟨[], 0, 0, 0⟩ (by simp) (by decide) (by decide) b hin
  · exact fun ho => by simpa [filterValue] using foldl_escape h hw ho ⟨[], 0, 0, 0⟩ rfl

/-! ## The value stored -/

/-- A value is stored faithfully if and only if the three-byte leads of the
escaped text settle, its ASCII and its completed characters fit `dst`, and,
where it is well-formed, it has no character of two or four bytes. -/
theorem stores_iff (h : Marks mark) (size : Nat) (v : Text) :
    Stores size mark v ↔ Settles none (leads (escape mark v)) ∧ kept (escape mark v) < size ∧
      (WellFormed v → ∀ b ∈ v, otherLead b = false) := by
  have hj := filter_spec (escape mark v) ⟨[], 0, 0, 0⟩ (.inl rfl) .nil
  constructor
  · rintro ⟨hbound, hwell, hsame⟩
    have hs : Settles none (leads (escape mark v)) := by
      by_contra hno
      exact hj.bad hno hwell
    have hlen : (filterValue (escape mark v)).length = 0 + kept (escape mark v) := (hj.good hs).2
    exact ⟨hs, by omega, fun hw => (same_iff h hw).1 (hsame hw)⟩
  · rintro ⟨hs, hkept, ho⟩
    obtain ⟨hwell, hlen⟩ := hj.good hs
    have hlen : (filterValue (escape mark v)).length = 0 + kept (escape mark v) := hlen
    exact ⟨by omega, hwell, fun hw => (same_iff h hw).2 (ho hw)⟩

/-- Quotes and backslashes doubled. -/
def doubled (b : UInt8) : Option UInt8 := if b = 39 ∨ b = 92 then some b else none

theorem doubled_marks : Marks doubled := by
  intro b m hm
  unfold doubled at hm
  split at hm
  · rename_i hb
    obtain rfl := Option.some.inj hm
    refine ⟨?_, .inl rfl⟩
    rcases hb with rfl | rfl <;> decide
  · exact absurd hm (by simp)

/-- `'あ` is stored as it is. -/
theorem stores_one : Marks doubled ∧ Stores stdOutLen doubled [39, 0xE3, 0x81, 0x82] := by
  refine ⟨doubled_marks, (stores_iff doubled_marks stdOutLen _).2 ⟨?_, by decide, ?_⟩⟩
  · exact ⟨⟨.inr (.inl (by decide)), by decide⟩, trivial⟩
  · exact fun _ => by decide +kernel

/-- `é`, a character of two bytes, is stored as nothing; and three stray
bytes come out as they are. -/
theorem two_bytes_lost :
    WellFormed [0xC3, 0xA9] ∧ filterValue (escape doubled [0xC3, 0xA9]) = [] ∧
      (∀ size, ¬ Stores size doubled [0xC3, 0xA9]) ∧
      ¬ WellFormed (filterValue (escape doubled [0xE3, 0x81, 0x82, 0x83])) := by
  have hw : WellFormed [0xC3, 0xA9] := .two (by decide) (by decide) (by decide) .nil
  refine ⟨hw, by decide, fun size hs => ?_, ?_⟩
  · exact absurd (hs.same hw) (by decide)
  · rw [show filterValue (escape doubled [0xE3, 0x81, 0x82, 0x83]) = [0xE3, 0x81, 0x82, 0x83] by decide,
      wellFormed_lead3 (by decide)]
    exact fun hs => wellFormed_cont (by decide) [] hs.2

end JobArranger.Output
