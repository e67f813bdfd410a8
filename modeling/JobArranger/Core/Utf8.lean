import Mathlib.Data.List.Basic

/-!
# Well-formed UTF-8

Byte sequences of the table of well-formed UTF-8 (Unicode 3.9, table 3-7):
a character is one to four bytes, and the second byte of some leads is
restricted.

* `wellFormed_append_iff`: what stands behind well-formed text is judged on
  its own.
* `wellFormed_cont`, `wellFormed_lead3`: how text goes on from its first
  byte.
-/
namespace Utf8

/-- What holds of the 256 bytes. -/
theorem forall_byte {P : UInt8 → Prop} (h : ∀ n : Fin 256, P (UInt8.ofNat n.val)) (b : UInt8) : P b := by
  have hb := h ⟨b.toNat, b.toNat_lt⟩
  simpa using hb

/-- A continuation byte. -/
def cont (b : UInt8) : Bool := 0x80 ≤ b.toNat && b.toNat ≤ 0xBF

/-- The lead of a character of three bytes. -/
def lead3 (b : UInt8) : Bool := 0xE0 ≤ b.toNat && b.toNat ≤ 0xEF

/-- A byte that is neither ASCII, nor a continuation, nor a lead of three. -/
def otherLead (b : UInt8) : Bool := (0xC0 ≤ b.toNat && b.toNat ≤ 0xDF) || 0xF0 ≤ b.toNat

/-- `a` and `b` begin a character of three bytes. -/
def Start3 (a b : UInt8) : Prop :=
  (a.toNat = 0xE0 ∧ 0xA0 ≤ b.toNat ∧ b.toNat ≤ 0xBF) ∨ (0xE1 ≤ a.toNat ∧ a.toNat ≤ 0xEC ∧ cont b = true) ∨
    (a.toNat = 0xED ∧ 0x80 ≤ b.toNat ∧ b.toNat ≤ 0x9F) ∨ (0xEE ≤ a.toNat ∧ a.toNat ≤ 0xEF ∧ cont b = true)

/-- A character of three bytes. -/
def Three (a b c : UInt8) : Prop := Start3 a b ∧ cont c = true

/-- `a` and `b` begin a character of four bytes. -/
def Start4 (a b : UInt8) : Prop :=
  (a.toNat = 0xF0 ∧ 0x90 ≤ b.toNat ∧ b.toNat ≤ 0xBF) ∨ (0xF1 ≤ a.toNat ∧ a.toNat ≤ 0xF3 ∧ cont b = true) ∨
    (a.toNat = 0xF4 ∧ 0x80 ≤ b.toNat ∧ b.toNat ≤ 0x8F)

inductive WellFormed : List UInt8 → Prop
  | nil : WellFormed []
  | ascii {a s} : a.toNat < 0x80 → WellFormed s → WellFormed (a :: s)
  | two {a b s} : 0xC2 ≤ a.toNat → a.toNat ≤ 0xDF → cont b = true → WellFormed s → WellFormed (a :: b :: s)
  | three {a b c s} : Three a b c → WellFormed s → WellFormed (a :: b :: c :: s)
  | four {a b c d s} : Start4 a b → cont c = true → cont d = true → WellFormed s → WellFormed (a :: b :: c :: d :: s)

theorem Start3.lead {a b : UInt8} (h : Start3 a b) : lead3 a = true := by
  simp only [Start3, lead3, Bool.and_eq_true, decide_eq_true_eq] at *
  omega

theorem Start3.cont {a b : UInt8} (h : Start3 a b) : cont b = true := by
  simp only [Start3, Utf8.cont, Bool.and_eq_true, decide_eq_true_eq] at *
  omega

theorem Start4.lead {a b : UInt8} (h : Start4 a b) : 0xF0 ≤ a.toNat := by
  simp only [Start4] at h
  omega

/-! ## The first byte -/

theorem wellFormed_ascii {a : UInt8} (h : a.toNat < 0x80) (s : List UInt8) : WellFormed (a :: s) ↔ WellFormed s := by
  constructor
  · intro hw
    cases hw with
    | ascii _ hs => exact hs
    | two ha => omega
    | three h3 => have := h3.1.lead; simp [lead3] at this; omega
    | four h4 => have := h4.lead; omega
  · exact .ascii h

theorem wellFormed_cont {a : UInt8} (h : cont a = true) (s : List UInt8) : ¬ WellFormed (a :: s) := by
  simp only [cont, Bool.and_eq_true, decide_eq_true_eq] at h
  intro hw
  cases hw with
  | ascii ha => omega
  | two ha => omega
  | three h3 => have := h3.1.lead; simp [lead3] at this; omega
  | four h4 => have := h4.lead; omega

theorem wellFormed_lead3 {a : UInt8} (h : lead3 a = true) (b c : UInt8) (s : List UInt8) :
    WellFormed (a :: b :: c :: s) ↔ Three a b c ∧ WellFormed s := by
  simp only [lead3, Bool.and_eq_true, decide_eq_true_eq] at h
  constructor
  · intro hw
    cases hw with
    | ascii ha => omega
    | two _ ha => omega
    | three h3 hs => exact ⟨h3, hs⟩
    | four h4 => have := h4.lead; omega
  · exact fun hw => .three hw.1 hw.2

theorem wellFormed_lead2 {a b : UInt8} (ha : 0xC2 ≤ a.toNat) (ha' : a.toNat ≤ 0xDF) (hb : cont b = true)
    (s : List UInt8) : WellFormed (a :: b :: s) ↔ WellFormed s := by
  constructor
  · intro hw
    cases hw with
    | ascii hc => omega
    | two _ _ _ hs => exact hs
    | three h3 => have := h3.1.lead; simp [lead3] at this; omega
    | four h4 => have := h4.lead; omega
  · exact .two ha ha' hb

theorem wellFormed_lead4 {a b c d : UInt8} (h : Start4 a b) (hc : cont c = true) (hd : cont d = true)
    (s : List UInt8) : WellFormed (a :: b :: c :: d :: s) ↔ WellFormed s := by
  have hlead := h.lead
  constructor
  · intro hw
    cases hw with
    | ascii ha => omega
    | two _ ha => omega
    | three h3 => have := h3.1.lead; simp [lead3] at this; omega
    | four _ _ _ hs => exact hs
  · exact .four h hc hd

/-! ## Concatenation -/

/-- Behind well-formed text comes a text of its own. -/
theorem wellFormed_append_iff {s : List UInt8} (h : WellFormed s) (t : List UInt8) :
    WellFormed (s ++ t) ↔ WellFormed t := by
  induction h with
  | nil => rfl
  | ascii ha _ ih => rw [List.cons_append, wellFormed_ascii ha, ih]
  | two ha ha' hb _ ih =>
    simp only [List.cons_append]
    rw [wellFormed_lead2 ha ha' hb, ih]
  | three h3 _ ih =>
    simp only [List.cons_append]
    rw [wellFormed_lead3 h3.1.lead, ih, and_iff_right h3]
  | four h4 hc hd _ ih =>
    simp only [List.cons_append]
    rw [wellFormed_lead4 h4 hc hd, ih]

end Utf8
