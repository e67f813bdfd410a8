import JobArranger.Core.Ere
import JobArranger.Core.Utf8
import JobArranger.L1Data.Tables

/-!
# The two wildcard matchers (`jalibs/jastr.c`)

`ja_match` is a backtracking recursion over pattern and string. `ja_regexp`
rewrites the pattern to an extended regular expression by three replacements
and an anchor at either end, in a buffer of `JA_MAX_STRING_LEN` bytes.
`regcomp` and `regexec` are a parameter, taken to follow POSIX where POSIX
says what they do.

* `jaMatch_iff`: the recursion has the wildcard meaning.
* `found_whole`, `found_cut`: the rewritten text of a plain pattern has it too,
  cut off by the buffer only up to its end.
* `Within.step`: a byte that is special in the target language costs less in a
  match than in the pattern, whatever it is read behind.
* `matchers_agree`: for which patterns both mean the same.

An interval such as `{3}` asks for more than its own bytes, so that the
count does not say anything about it.
-/
namespace JobArranger.Match

open Ere

/-- The bytes of a string: no NUL, and here no newline. -/
def Line (s : Text) : Prop := ∀ b ∈ s, b ≠ 0 ∧ b ≠ newline

/-! ## The source -/

/-- mirrors src/jalibs/jastr.c:196-211; the end of the list is the NUL. -/
def jaMatch (string pattern : Text) : Bool :=
  match pattern with
  | [] => string.isEmpty
  | p :: ps =>
    if p = 0x2a then
      jaMatch string ps || match string with
        | [] => false
        | _ :: ss => jaMatch ss (p :: ps)
    else if p = 0x3f then match string with
      | [] => false
      | _ :: ss => jaMatch ss ps
    else match string with
      | [] => false
      | c :: ss => p == c && jaMatch ss ps
termination_by (pattern.length, string.length)

/-- `string_replace` for a substring of one byte.
mirrors src/src/libs/zbxcommon/str.c:281-321 -/
def stringReplace (str : Text) (sub₁ : UInt8) (sub₂ : Text) : Text :=
  str.flatMap fun b => if b = sub₁ then sub₂ else [b]

/-- The pattern after the three replacements. -/
def expand (pattern : Text) : Text :=
  let s₁ := stringReplace pattern 0x2e [0x5c, 0x2e]
  let s₂ := stringReplace s₁ 0x2a [0x2e, 0x2a]
  stringReplace s₂ 0x3f [0x2e]

/-- `"^%s$"` in `new_pattern`. -/
def newPattern (pattern : Text) : Text := ([0x5e] ++ expand pattern ++ [0x24]).take (maxStringLen - 1)

/-- `regcomp` with `REG_EXTENDED | REG_NEWLINE`: nothing, or what `regexec`
does with a string. -/
abbrev Regcomp := Text → Option (Text → Bool)

/-- mirrors src/jalibs/jastr.c:226-259 -/
def jaRegexp (regcomp : Regcomp) (string pattern : Option Text) : Bool :=
  match string, pattern with
  | some string, some pattern =>
    match regcomp (newPattern pattern) with
    | none => false
    | some regexec => regexec string
  | _, _ => true

/-! ## The wildcard meaning -/

/-- `*` is any sequence, `?` any byte, every other byte itself. -/
def Wild : Text → Text → Prop
  | [], s => s = []
  | p :: ps, s =>
    if p = 0x2a then ∃ u v, s = u ++ v ∧ Wild ps v
    else if p = 0x3f then ∃ b v, s = b :: v ∧ Wild ps v
    else ∃ v, s = p :: v ∧ Wild ps v

theorem wild_star {ps s : Text} : Wild (0x2a :: ps) s ↔ ∃ u v, s = u ++ v ∧ Wild ps v := by
  simp [Wild]

theorem wild_any {ps s : Text} : Wild (0x3f :: ps) s ↔ ∃ b v, s = b :: v ∧ Wild ps v := by
  simp [Wild]

theorem wild_byte {p : UInt8} {ps s : Text} (h : p ≠ 0x2a) (h' : p ≠ 0x3f) :
    Wild (p :: ps) s ↔ ∃ v, s = p :: v ∧ Wild ps v := by
  simp [Wild, h, h']

/-- A star takes no byte, or one and is still there. -/
theorem wild_star_cons {ps : Text} {c : UInt8} {ss : Text} :
    Wild (0x2a :: ps) (c :: ss) ↔ Wild ps (c :: ss) ∨ Wild (0x2a :: ps) ss := by
  rw [wild_star, wild_star]
  constructor
  · rintro ⟨_ | ⟨d, u⟩, v, h, hv⟩
    · exact .inl (by rw [h]; exact hv)
    · injection h with h₁ h₂
      exact .inr ⟨u, v, h₂, hv⟩
  · rintro (h | ⟨u, v, rfl, hv⟩)
    · exact ⟨[], c :: ss, rfl, h⟩
    · exact ⟨c :: u, v, rfl, hv⟩

theorem jaMatch_iff : ∀ pattern string : Text, jaMatch string pattern = true ↔ Wild pattern string
  | [], string => by cases string <;> simp [jaMatch, Wild]
  | p :: ps, string => by
    by_cases hstar : p = 0x2a
    · subst hstar
      cases string with
      | nil =>
        have ih := jaMatch_iff ps []
        simp [jaMatch, wild_star, ih]
      | cons c ss =>
        have ih := jaMatch_iff ps (c :: ss)
        have ih' := jaMatch_iff (0x2a :: ps) ss
        rw [jaMatch, if_pos rfl, wild_star_cons, Bool.or_eq_true, ih, ih']
    · by_cases hany : p = 0x3f
      · subst hany
        cases string with
        | nil => simp [jaMatch, wild_any]
        | cons c ss =>
          have ih := jaMatch_iff ps ss
          simp [jaMatch, wild_any, ih]
      · cases string with
        | nil => simp [jaMatch, wild_byte hstar hany, hstar, hany]
        | cons c ss =>
          have ih := jaMatch_iff ps ss
          rw [jaMatch, if_neg hstar, if_neg hany, Bool.and_eq_true, beq_iff_eq, ih, wild_byte hstar hany]
          constructor
          · rintro ⟨rfl, hs⟩
            exact ⟨ss, rfl, hs⟩
          · rintro ⟨v, hv, hs⟩
            injection hv with h₁ h₂
            exact ⟨h₁.symm, h₂ ▸ hs⟩
termination_by pattern string => (pattern.length, string.length)

theorem wild_append {p q s : Text} : Wild (p ++ q) s ↔ ∃ u v, s = u ++ v ∧ Wild p u ∧ Wild q v := by
  induction p generalizing s with
  | nil => simp [Wild]
  | cons b p ih =>
    by_cases hstar : b = 0x2a
    · subst hstar
      rw [List.cons_append, wild_star]
      simp only [wild_star, ih]
      constructor
      · rintro ⟨u, _, rfl, u', v, rfl, hp, hq⟩
        exact ⟨u ++ u', v, by simp, ⟨u, u', rfl, hp⟩, hq⟩
      · rintro ⟨_, v, rfl, ⟨u, u', rfl, hp⟩, hq⟩
        exact ⟨u, u' ++ v, by simp, u', v, rfl, hp, hq⟩
    · by_cases hany : b = 0x3f
      · subst hany
        rw [List.cons_append, wild_any]
        simp only [wild_any, ih]
        constructor
        · rintro ⟨c, _, rfl, u, v, rfl, hp, hq⟩
          exact ⟨c :: u, v, rfl, ⟨c, u, rfl, hp⟩, hq⟩
        · rintro ⟨_, v, rfl, ⟨c, u, rfl, hp⟩, hq⟩
          exact ⟨c, u ++ v, rfl, u, v, rfl, hp, hq⟩
      · rw [List.cons_append, wild_byte hstar hany]
        simp only [wild_byte hstar hany, ih]
        constructor
        · rintro ⟨_, rfl, u, v, rfl, hp, hq⟩
          exact ⟨b :: u, v, rfl, ⟨u, rfl, hp⟩, hq⟩
        · rintro ⟨_, v, rfl, ⟨u, rfl, hp⟩, hq⟩
          exact ⟨u ++ v, rfl, u, v, rfl, hp, hq⟩

theorem wild_append_star {q s : Text} : Wild (q ++ [0x2a]) s ↔ ∃ u v, s = u ++ v ∧ Wild q u := by
  rw [wild_append]
  constructor
  · rintro ⟨u, v, rfl, hu, -⟩
    exact ⟨u, v, rfl, hu⟩
  · rintro ⟨u, v, rfl, hu⟩
    exact ⟨u, v, rfl, hu, wild_star.2 ⟨v, [], by simp, rfl⟩⟩

/-! ## Plain patterns -/

/-- A byte that an extended regular expression reads as itself, or one that
the replacements take care of. -/
def plainByte (b : UInt8) : Bool :=
  match sym b with
  | .ord | .dot | .star | .opt => true
  | _ => false

def Plain (p : Text) : Prop := ∀ b ∈ p, plainByte b = true

/-- One byte after the three replacements. -/
def expandByte (b : UInt8) : Text :=
  if b = 0x2e then [0x5c, 0x2e] else if b = 0x2a then [0x2e, 0x2a] else if b = 0x3f then [0x2e] else [b]

theorem expand_eq (p : Text) : expand p = p.flatMap expandByte := by
  simp only [expand, stringReplace, List.flatMap_assoc]
  refine List.flatMap_congr fun b _ => ?_
  by_cases hdot : b = 0x2e
  · subst hdot
    rfl
  · by_cases hstar : b = 0x2a
    · subst hstar
      rfl
    · by_cases hany : b = 0x3f
      · subst hany
        rfl
      · simp [expandByte, hdot, hstar, hany]

theorem expand_cons (b : UInt8) (p : Text) : expand (b :: p) = expandByte b ++ expand p := by
  simp [expand_eq]

/-- What a byte of a plain pattern becomes. -/
def token (b : UInt8) : Re := if b = 0x2a then .rep .any 0 none else if b = 0x3f then .any else .byte b

theorem sym_ord : ∀ b, plainByte b = true → b ≠ 0x2e → b ≠ 0x2a → b ≠ 0x3f → sym b = .ord :=
  Utf8.forall_byte (by decide +kernel)

theorem run_expandByte (locale : Ere.Locale) {st : State} (hm : st.mode = .normal) {b : UInt8} (hb : plainByte b = true) :
    run locale st (expandByte b) = some (st.push (token b)) := by
  obtain ⟨top, stack, mode⟩ := st
  cases hm
  by_cases hdot : b = 0x2e
  · subst hdot
    rfl
  · by_cases hstar : b = 0x2a
    · subst hstar
      rfl
    · by_cases hany : b = 0x3f
      · subst hany
        rfl
      · simp [expandByte, token, hdot, hstar, hany, run_cons, step, sym_ord b hb hdot hstar hany]

/-- Reading a plain pattern. -/
theorem run_expand (locale : Ere.Locale) {p : Text} : ∀ {st : State}, st.mode = .normal → Plain p →
    run locale st (expand p) =
      some { st with top := { st.top with branch := (p.map token).reverse ++ st.top.branch } } := by
  induction p with
  | nil => exact fun _ _ => rfl
  | cons b p ih =>
    intro st hm hp
    rw [expand_cons, run_append, run_expandByte locale hm (hp b List.mem_cons_self), Option.bind_some,
      ih rfl fun c hc => hp c (List.mem_cons_of_mem _ hc)]
    simp [State.push, hm]

theorem times_any {post : Text} : ∀ {w : Text}, (∀ b ∈ w, b ≠ newline) → ∀ pre, Times Re.any.Matches w.length pre w post
  | [], _, _ => rfl
  | b :: w, h, _ => ⟨[b], w, rfl, ⟨b, h b List.mem_cons_self, rfl⟩,
      times_any (fun c hc => h c (List.mem_cons_of_mem _ hc)) _⟩

/-- The tokens have the wildcard meaning. -/
theorem matchesAll_tokens {p : Text} : ∀ {pre w post : Text}, (∀ b ∈ w, b ≠ newline) →
    (MatchesAll (p.map token) pre w post ↔ Wild p w) := by
  induction p with
  | nil => exact fun _ => Iff.rfl
  | cons b p ih =>
    intro pre w post hw
    rw [List.map_cons, MatchesAll]
    by_cases hstar : b = 0x2a
    · subst hstar
      rw [wild_star]
      constructor
      · rintro ⟨u, v, rfl, -, hv⟩
        exact ⟨u, v, rfl, (ih fun c hc => hw c (List.mem_append_right _ hc)).1 hv⟩
      · rintro ⟨u, v, rfl, hv⟩
        have hu : Times Re.any.Matches u.length pre u (v ++ post) :=
          times_any (fun c hc => hw c (List.mem_append_left _ hc)) pre
        exact ⟨u, v, rfl, ⟨u.length, Nat.zero_le _, by simp, hu⟩,
          (ih fun c hc => hw c (List.mem_append_right _ hc)).2 hv⟩
    · by_cases hany : b = 0x3f
      · subst hany
        rw [wild_any]
        constructor
        · rintro ⟨_, v, rfl, ⟨c, -, rfl⟩, hv⟩
          exact ⟨c, v, rfl, (ih fun d hd => hw d (List.mem_append_right _ hd)).1 hv⟩
        · rintro ⟨c, v, rfl, hv⟩
          exact ⟨[c], v, rfl, ⟨c, hw c List.mem_cons_self, rfl⟩, (ih fun d hd => hw d (List.mem_cons_of_mem _ hd)).2 hv⟩
      · have htok : token b = .byte b := by simp [token, hstar, hany]
        rw [wild_byte hstar hany, htok]
        constructor
        · rintro ⟨_, v, rfl, rfl, hv⟩
          exact ⟨v, rfl, (ih fun d hd => hw d (List.mem_append_right _ hd)).1 hv⟩
        · rintro ⟨v, rfl, hv⟩
          exact ⟨[b], v, rfl, rfl, (ih fun d hd => hw d (List.mem_cons_of_mem _ hd)).2 hv⟩

theorem matches_bol {rs : List Re} {pre w post : Text} (hn : ∀ b ∈ pre, b ≠ newline) :
    MatchesAll (.bol :: rs) pre w post ↔ pre = [] ∧ MatchesAll rs [] w post := by
  rw [MatchesAll]
  constructor
  · rintro ⟨_, v, rfl, ⟨rfl, hp⟩, hv⟩
    have hpre : pre = [] := hp.resolve_right fun h => hn newline (List.mem_of_getLast? h) rfl
    subst hpre
    exact ⟨rfl, hv⟩
  · rintro ⟨rfl, hv⟩
    exact ⟨[], w, rfl, ⟨rfl, .inl rfl⟩, hv⟩

/-- The rewritten text of a plain pattern, cut off behind it or before `$`. -/
theorem parse_plain (locale : Ere.Locale) {q : Text} (hq : Plain q) (anchored : Bool) :
    ∃ r, parse locale ([0x5e] ++ expand q ++ if anchored then [0x24] else []) = some r ∧
      ∀ pre w post, r.Matches pre w post ↔
        MatchesAll (.bol :: (q.map token ++ if anchored then [.eol] else [])) pre w post := by
  have hrun := @run_expand locale q (Ere.init.push .bol) rfl hq
  have hbol : run locale Ere.init ([0x5e] ++ expand q) =
      some ⟨⟨none, (.bol :: q.map token).reverse⟩, [], .normal⟩ := by
    rw [run_append]
    change run locale (Ere.init.push .bol) (expand q) = _
    rw [hrun]
    simp [State.push, Ere.init]
  have hne : ∀ rs : List Re, ∃ r, Frame.close ⟨none, (Re.bol :: rs).reverse⟩ = some r ∧
      ∀ pre w post, r.Matches pre w post ↔ MatchesAll (.bol :: rs) pre w post := by
    intro rs
    cases hl : (Re.bol :: rs).reverse with
    | nil => simp at hl
    | cons r l =>
      refine ⟨catRev r l, rfl, fun pre w post => ?_⟩
      rw [matches_catRev, ← hl, List.reverse_reverse]
  cases anchored with
  | true =>
    obtain ⟨r, hr, hm⟩ := hne (q.map token ++ [.eol])
    refine ⟨r, ?_, hm⟩
    rw [if_pos rfl, parse, run_append, hbol]
    rw [← hr]
    change Frame.close ⟨none, .eol :: (.bol :: q.map token).reverse⟩ = _
    congr 2
    simp
  | false =>
    obtain ⟨r, hr, hm⟩ := hne (q.map token)
    refine ⟨r, ?_, by simpa using hm⟩
    rw [if_neg (by simp), List.append_nil, parse, hbol]
    exact hr

/-- The whole text has the meaning of the pattern. -/
theorem found_whole (locale : Ere.Locale) {q : Text} (hq : Plain q) :
    ∃ r, parse locale ([0x5e] ++ expand q ++ [0x24]) = some r ∧ ∀ s, Line s → (r.Found s ↔ Wild q s) := by
  obtain ⟨r, hr, hm⟩ := parse_plain locale hq true
  rw [if_pos rfl] at hr
  simp only [if_true] at hm
  refine ⟨r, hr, fun s hs => ?_⟩
  have hn : ∀ b ∈ s, b ≠ newline := fun b hb => (hs b hb).2
  simp only [Re.Found, hm]
  constructor
  · rintro ⟨pre, w, post, rfl, h⟩
    obtain ⟨rfl, hrest⟩ := (matches_bol fun b hb => hn b (by simp [hb])).1 h
    obtain ⟨u, v, rfl, hu, heol⟩ := matchesAll_append.1 hrest
    obtain ⟨_, _, rfl, ⟨rfl, hpost⟩, rfl⟩ := heol
    have hend : post = [] := by
      rcases hpost with h | h
      · simpa using h
      · have hin : newline ∈ post := List.mem_of_head? (by simpa using h)
        exact absurd rfl (hn newline (List.mem_append_right _ hin))
    subst hend
    simpa using (matchesAll_tokens fun b hb => hn b (by simp [hb])).1 hu
  · intro h
    refine ⟨[], s, [], by simp, (matches_bol (by simp)).2 ⟨rfl, matchesAll_append.2 ⟨s, [], by simp, ?_, ?_⟩⟩⟩
    · exact (matchesAll_tokens hn).2 h
    · exact ⟨[], [], rfl, ⟨rfl, .inl rfl⟩, rfl⟩

/-- Without `$` anything may follow. -/
theorem found_cut (locale : Ere.Locale) {q : Text} (hq : Plain q) :
    ∃ r, parse locale ([0x5e] ++ expand q) = some r ∧ ∀ s, Line s → (r.Found s ↔ Wild (q ++ [0x2a]) s) := by
  obtain ⟨r, hr, hm⟩ := parse_plain locale hq false
  rw [if_neg (by simp), List.append_nil] at hr
  simp only [Bool.false_eq_true, if_false, List.append_nil] at hm
  refine ⟨r, hr, fun s hs => ?_⟩
  have hn : ∀ b ∈ s, b ≠ newline := fun b hb => (hs b hb).2
  simp only [Re.Found, hm, wild_append_star]
  constructor
  · rintro ⟨pre, w, post, rfl, h⟩
    obtain ⟨rfl, hrest⟩ := (matches_bol fun b hb => hn b (by simp [hb])).1 h
    exact ⟨w, post, by simp, (matchesAll_tokens fun b hb => hn b (by simp [hb])).1 hrest⟩
  · rintro ⟨u, v, rfl, hu⟩
    refine ⟨[], u, v, by simp, (matches_bol (by simp)).2 ⟨rfl, ?_⟩⟩
    exact (matchesAll_tokens fun b hb => hn b (by simp [hb])).2 hu

/-! ## What a pattern costs -/

/-- The weights: every construct of a regular expression costs less in a match
than its bytes do in the pattern. -/
def weight (b : UInt8) : Nat :=
  match sym b with
  | .quote => 4
  | .bracket => 5
  | .dot => 3
  | .star | .opt => 1
  | .ord => if b = 0x5d then 2 else 1
  | _ => 2

/-- A byte that costs one. -/
def cheap : UInt8 := 0x78

abbrev Least (r : Re) : Nat := r.least weight cheap 5

abbrev Spent (st : Ere.State) : Nat := st.spent weight cheap 5

theorem weight_bounds : ∀ b, 1 ≤ weight b ∧ weight b ≤ 5 := Utf8.forall_byte (by decide +kernel)

/-- What a byte of a pattern takes from a string at least. -/
def byteCost (b : UInt8) : Nat := if b = 0x2a then 0 else if b = 0x3f then 1 else weight b

def patternCost (p : Text) : Nat := (p.map byteCost).sum

@[simp] theorem patternCost_nil : patternCost [] = 0 := rfl

@[simp] theorem patternCost_cons (b : UInt8) (p : Text) : patternCost (b :: p) = byteCost b + patternCost p := by
  simp [patternCost]

@[simp] theorem patternCost_append (p q : Text) : patternCost (p ++ q) = patternCost p + patternCost q := by
  simp [patternCost]

theorem wild_cost {p : Text} : ∀ {s : Text}, Wild p s → patternCost p ≤ cost weight s := by
  induction p with
  | nil => simp
  | cons b p ih =>
    intro s h
    by_cases hstar : b = 0x2a
    · subst hstar
      obtain ⟨u, v, rfl, hv⟩ := wild_star.1 h
      have := ih hv
      simp only [patternCost_cons, byteCost, if_true, cost_append]
      omega
    · by_cases hany : b = 0x3f
      · subst hany
        obtain ⟨c, v, rfl, hv⟩ := wild_any.1 h
        have := ih hv
        have := (weight_bounds c).1
        simp only [patternCost_cons, byteCost, hstar, if_false, if_true, cost_cons]
        omega
      · obtain ⟨v, rfl, hv⟩ := (wild_byte hstar hany).1 h
        have := ih hv
        simp only [patternCost_cons, byteCost, hstar, hany, if_false, cost_cons]
        omega

/-- A string that matches. -/
def someMatch : Text → Text
  | [] => []
  | b :: p => if b = 0x2a then someMatch p else if b = 0x3f then cheap :: someMatch p else b :: someMatch p

theorem wild_someMatch (p : Text) : Wild p (someMatch p) := by
  induction p with
  | nil => rfl
  | cons b p ih =>
    rw [someMatch]
    split_ifs with hstar hany
    · subst hstar
      exact wild_star.2 ⟨[], _, rfl, ih⟩
    · subst hany
      exact wild_any.2 ⟨cheap, _, rfl, ih⟩
    · exact (wild_byte hstar hany).2 ⟨_, rfl, ih⟩

theorem mem_someMatch {p : Text} {b : UInt8} (h : b ∈ someMatch p) : b ∈ p ∨ b = cheap := by
  induction p with
  | nil => exact absurd h List.not_mem_nil
  | cons c p ih =>
    rw [someMatch] at h
    split_ifs at h with hstar hany
    · exact (ih h).imp (List.mem_cons_of_mem _) id
    · rcases List.mem_cons.1 h with rfl | h
      · exact .inr rfl
      · exact (ih h).imp (List.mem_cons_of_mem _) id
    · rcases List.mem_cons.1 h with rfl | h
      · exact .inl List.mem_cons_self
      · exact (ih h).imp (List.mem_cons_of_mem _) id

/-! ## Reading a pattern that is not plain -/

/-- What is due for a construct that has been opened. -/
def due : Mode → Nat
  | .normal | .interval _ => 0
  | .escape => 4
  | .bracket .. => 5

/-- The reader has spent no more than the pattern `q` costs, and two less when
`q` is not plain. -/
structure Within (q : Text) (st : Ere.State) : Prop where
  mode : ∀ ds, st.mode ≠ .interval ds
  spent : Spent st + due st.mode ≤ patternCost q
  special : ¬ Plain q → Spent st + 2 ≤ patternCost q

theorem plain_append {p q : Text} : Plain (p ++ q) ↔ Plain p ∧ Plain q := by
  simp [Plain, or_imp, forall_and]

/-- A plain byte outside any construct. -/
theorem Within.plain {q : Text} {st st' : Ere.State} (h : Within q st) {b : UInt8} (hb : plainByte b = true)
    (hm : st'.mode = .normal) (hs : Spent st' ≤ Spent st + byteCost b) : Within (q ++ [b]) st' := by
  have hle := h.spent
  refine ⟨fun ds hd => by simp [hm] at hd, ?_, fun hp => ?_⟩
  · simp only [hm, due, patternCost_append, patternCost_cons, patternCost_nil]
    omega
  · have hq : ¬ Plain q := fun hq => hp (plain_append.2 ⟨hq, fun c hc => by rw [List.mem_singleton.1 hc, hb]⟩)
    have := h.special hq
    rw [patternCost_append, patternCost_cons, patternCost_nil]
    omega

/-- A byte that saves two. -/
theorem Within.gap {q : Text} {st st' : Ere.State} (h : Within q st) {b : UInt8} (hm : st'.mode = .normal)
    (hs : Spent st' + 2 ≤ Spent st + due st.mode + byteCost b) : Within (q ++ [b]) st' := by
  have hle := h.spent
  have hK : patternCost (q ++ [b]) = patternCost q + byteCost b := by simp
  refine ⟨fun ds hd => by simp [hm] at hd, ?_, fun _ => ?_⟩
  · rw [hm, hK]
    simp only [due]
    omega
  · rw [hK]
    omega

/-- A byte behind which a construct is open. -/
theorem Within.opened {q : Text} {st st' : Ere.State} (h : Within q st) {b : UInt8}
    (hi : ∀ ds, st'.mode ≠ .interval ds) (hs : Spent st' + due st'.mode ≤ Spent st + due st.mode + byteCost b)
    (hd : 2 ≤ due st'.mode) : Within (q ++ [b]) st' := by
  have hle := h.spent
  have hK : patternCost (q ++ [b]) = patternCost q + byteCost b := by simp
  refine ⟨hi, ?_, fun _ => ?_⟩
  · rw [hK]
    omega
  · rw [hK]
    omega

/-- A byte with a meaning of its own costs two at least. -/
theorem byteCost_special : ∀ b, plainByte b = false → 2 ≤ byteCost b ∧ byteCost b = weight b :=
  Utf8.forall_byte (by decide +kernel)

theorem expandByte_special {b : UInt8} (h : plainByte b = false) : expandByte b = [b] := by
  have hdot : b ≠ 0x2e := by rintro rfl; cases h
  have hstar : b ≠ 0x2a := by rintro rfl; cases h
  have hany : b ≠ 0x3f := by rintro rfl; cases h
  simp [expandByte, hdot, hstar, hany]

theorem sym_brace : ∀ b, sym b = .brace → b = 0x7b := Utf8.forall_byte (by decide +kernel)

/-- A byte of the pattern read outside any construct. -/
theorem Within.normal {locale : Ere.Locale} {q : Text} {st st' : Ere.State} (h : Within q st) (hm : st.mode = .normal)
    {b : UInt8} (hbrace : b ≠ 0x7b) (hrun : run locale st (expandByte b) = some st') : Within (q ++ [b]) st' := by
  by_cases hb : plainByte b = true
  · rw [run_expandByte locale hm hb] at hrun
    injection hrun with hrun
    rw [← hrun]
    refine h.plain hb rfl ?_
    rw [Spent, spent_push]
    refine Nat.add_le_add_left ?_ _
    unfold token byteCost
    split_ifs
    · simp [Re.least]
    · simp [Re.least, cheap, weight, sym]
    · exact Nat.le_refl _
  · have hb' : plainByte b = false := by simpa using hb
    obtain ⟨htwo, hw⟩ := byteCost_special b hb'
    rw [expandByte_special hb', run_cons] at hrun
    simp only [run_nil, Option.bind_fun_some, step, hm] at hrun
    have hgap : st'.mode = .normal → Spent st' ≤ Spent st → Within (q ++ [b]) st' := fun hm' hs =>
      h.gap hm' (by omega)
    cases hsym : sym b with
    | quote =>
      simp only [hsym, Option.some.injEq] at hrun
      subst hrun
      refine h.opened (by simp) ?_ (by simp [due])
      simp [hw, weight, hsym, due, hm, State.spent]
    | bracket =>
      simp only [hsym, Option.some.injEq] at hrun
      subst hrun
      refine h.opened (by simp) ?_ (by simp [due])
      simp [hw, weight, hsym, due, hm, State.spent]
    | openGroup =>
      simp only [hsym, Option.some.injEq] at hrun
      subst hrun
      exact hgap rfl (by simp [State.spent, Frame.spent])
    | closeGroup =>
      simp only [hsym] at hrun
      obtain ⟨hm', hs⟩ := @spent_closeGroup weight cheap 5 _ _ hrun
      exact hgap hm' hs
    | bar =>
      simp only [hsym] at hrun
      obtain ⟨hm', hs⟩ := @spent_bar weight cheap 5 _ _ hrun
      exact hgap (hm'.trans hm) hs
    | plus =>
      simp only [hsym] at hrun
      obtain ⟨hm', hs⟩ := @spent_dup weight cheap 5 _ _ _ _ (Nat.le_refl 1) hrun
      exact hgap hm' hs
    | brace => exact absurd (sym_brace b hsym) hbrace
    | bol =>
      simp only [hsym, Option.some.injEq] at hrun
      subst hrun
      exact hgap rfl (by rw [Spent, spent_push]; simp [Re.least])
    | eol =>
      simp only [hsym, Option.some.injEq] at hrun
      subst hrun
      exact hgap rfl (by rw [Spent, spent_push]; simp [Re.least])
    | star | opt | dot | ord => simp [plainByte, hsym] at hb'

/-- A byte of the pattern read behind a backslash: what the replacements put
before it is what gets escaped. -/
theorem Within.escaped {locale : Ere.Locale} {q : Text} {st st' : Ere.State} (h : Within q st) (hm : st.mode = .escape)
    {b : UInt8} (hrun : run locale st (expandByte b) = some st') : Within (q ++ [b]) st' := by
  obtain ⟨top, stack, mode⟩ := st
  cases hm
  by_cases hdot : b = 0x2e
  · -- the backslash is escaped and the dot is any byte
    subst hdot
    have hst' : some st' = some ((State.push ⟨top, stack, .escape⟩ (.byte 0x5c)).push .any) := hrun.symm
    injection hst' with hst'
    subst hst'
    refine h.gap rfl ?_
    simp only [Spent, spent_push, Re.least, due]
    simp [weight, sym, cheap, byteCost]
  · by_cases hstar : b = 0x2a
    · -- an escaped dot, any number of times
      subst hstar
      obtain ⟨hm', hs⟩ := @spent_push_star weight cheap 5 ⟨top, stack, .escape⟩ _ (.byte 0x2e) _ hrun
      refine h.gap hm' ?_
      simp only [Spent, hs, due]
      omega
    · by_cases hany : b = 0x3f
      · -- an escaped dot
        subst hany
        have hst' : some st' = some (State.push ⟨top, stack, .escape⟩ (.byte 0x2e)) := hrun.symm
        injection hst' with hst'
        subst hst'
        refine h.gap rfl ?_
        simp only [Spent, spent_push, Re.least, due]
        simp [weight, sym, byteCost]
      · simp only [expandByte, hdot, hstar, hany, if_false, run_cons, run_nil, Option.bind_fun_some, step] at hrun
        split at hrun
        · cases hrun
        · injection hrun with hrun
          subst hrun
          refine h.gap rfl ?_
          simp only [Spent, spent_push, Re.least, due, byteCost, hstar, hany, if_false]
          omega

/-- One byte inside a bracket expression. -/
theorem bracket_step {locale : Ere.Locale} {st st' : Ere.State} {content : List UInt8} {sub : Option (UInt8 × Nat)}
    (hm : st.mode = .bracket content sub) {b : UInt8} (h : step locale st b = some st') :
    (∃ c s, st'.mode = .bracket c s ∧ Spent st' = Spent st) ∨
      (b = 0x5d ∧ st'.mode = .normal ∧ Spent st' = Spent st + 5) := by
  simp only [step, hm] at h
  split at h
  · rename_i hend
    simp only [Option.map_eq_some_iff] at h
    obtain ⟨f, -, rfl⟩ := h
    simp only [endsBracket, Bool.and_eq_true, decide_eq_true_eq] at hend
    exact .inr ⟨hend.1.1.1, rfl, by rw [Spent, spent_push]; rfl⟩
  · injection h with h
    subst h
    left
    unfold bracketStep
    split
    all_goals
      split
      all_goals exact ⟨_, _, rfl, rfl⟩

/-- A byte of the pattern read inside a bracket expression. -/
theorem Within.bracket {locale : Ere.Locale} {q : Text} {st st' : Ere.State} (h : Within q st) {content : List UInt8}
    {sub : Option (UInt8 × Nat)} (hm : st.mode = .bracket content sub) {b : UInt8}
    (hrun : run locale st (expandByte b) = some st') : Within (q ++ [b]) st' := by
  have hstay : ∀ {st' : Ere.State}, (∃ c s, st'.mode = .bracket c s ∧ Spent st' = Spent st) → Within (q ++ [b]) st' := by
    rintro st' ⟨c, s, hm', hs⟩
    refine h.opened (by simp [hm']) ?_ (by simp [hm', due])
    simp only [hm, hm', due, hs]
    omega
  -- the two bytes that a dot and a star become do not end the expression
  have htwo : ∀ {a c : UInt8}, a ≠ 0x5d → c ≠ 0x5d → run locale st [a, c] = some st' → Within (q ++ [b]) st' := by
    intro a c ha hc hr
    rw [run_cons, Option.bind_eq_some_iff] at hr
    obtain ⟨st₁, h₁, h₂⟩ := hr
    simp only [run_cons, run_nil, Option.bind_fun_some] at h₂
    rcases bracket_step hm h₁ with ⟨c₁, s₁, hm₁, hs₁⟩ | ⟨he, -⟩
    · rcases bracket_step hm₁ h₂ with ⟨c₂, s₂, hm₂, hs₂⟩ | ⟨he, -⟩
      · exact hstay ⟨c₂, s₂, hm₂, hs₂.trans hs₁⟩
      · exact absurd he hc
    · exact absurd he ha
  by_cases hdot : b = 0x2e
  · subst hdot
    exact htwo (a := 0x5c) (c := 0x2e) (by decide) (by decide) hrun
  · by_cases hstar : b = 0x2a
    · subst hstar
      exact htwo (a := 0x2e) (c := 0x2a) (by decide) (by decide) hrun
    · have hone : ∃ c, run locale st [c] = some st' ∧ (c = 0x5d → c = b) := by
        by_cases hany : b = 0x3f
        · exact ⟨0x2e, by subst hany; exact hrun, fun h => absurd h (by decide)⟩
        · exact ⟨b, by simpa [expandByte, hdot, hstar, hany] using hrun, fun _ => rfl⟩
      obtain ⟨c, hr, hc⟩ := hone
      simp only [run_cons, run_nil, Option.bind_fun_some] at hr
      rcases bracket_step hm hr with hs | ⟨he, hm', hs⟩
      · exact hstay hs
      · refine h.gap hm' ?_
        have hb : b = 0x5d := (hc he).symm.trans he
        subst hb
        simp only [hs, hm, due]
        exact Nat.le_refl _

theorem Within.step {locale : Ere.Locale} {q : Text} {st st' : Ere.State} (h : Within q st) {b : UInt8} (hbrace : b ≠ 0x7b)
    (hrun : run locale st (expandByte b) = some st') : Within (q ++ [b]) st' := by
  cases hm : st.mode with
  | normal => exact h.normal hm hbrace hrun
  | escape => exact h.escaped hm hrun
  | bracket content sub => exact h.bracket hm hrun
  | interval ds => exact absurd hm (h.mode ds)

theorem Within.run {locale : Ere.Locale} {p : Text} : ∀ {q : Text} {st st' : Ere.State}, Within q st → 0x7b ∉ p →
    run locale st (expand p) = some st' → Within (q ++ p) st' := by
  induction p with
  | nil =>
    intro q st st' h _ hrun
    injection hrun with hrun
    rw [← hrun, List.append_nil]
    exact h
  | cons b p ih =>
    intro q st st' h hbrace hrun
    rw [expand_cons, run_append, Option.bind_eq_some_iff] at hrun
    obtain ⟨st₁, h₁, h₂⟩ := hrun
    have hstep := h.step (fun hb => hbrace (hb ▸ List.mem_cons_self)) h₁
    have hrest := ih hstep (fun hb => hbrace (List.mem_cons_of_mem _ hb)) h₂
    rwa [List.append_assoc] at hrest

theorem least_le_spent {st : Ere.State} {r : Re} (h : finish st = some r) : st.mode = .normal ∧ Least r ≤ Spent st :=
  least_finish h

theorem spent_pushed (st : Ere.State) (r : Re) : Spent (st.push r) = Spent st + Least r := spent_push st r

/-- The reader behind `^` and the pattern. -/
theorem within_pattern {locale : Ere.Locale} {q tail : Text} {r : Re} (hbrace : 0x7b ∉ q)
    (h : parse locale ([0x5e] ++ expand q ++ tail) = some r) :
    ∃ st st', Within q st ∧ Ere.run locale st tail = some st' ∧ finish st' = some r := by
  rw [parse, Option.bind_eq_some_iff] at h
  obtain ⟨st', hrun, hfin⟩ := h
  rw [run_append, Option.bind_eq_some_iff] at hrun
  obtain ⟨st, hrun, htail⟩ := hrun
  rw [run_append, Option.bind_eq_some_iff] at hrun
  obtain ⟨st₀, h₀, hrun⟩ := hrun
  injection (h₀ : some (Ere.init.push .bol) = some st₀) with h₀
  have hinit : Within [] st₀ := by
    rw [← h₀]
    exact ⟨fun ds hd => (nomatch hd), Nat.le_refl 0, fun hp => absurd (fun b hb => absurd hb List.not_mem_nil) hp⟩
  exact ⟨st, st', hinit.run hbrace hrun, htail, hfin⟩

/-- A pattern that is not plain costs more than its regular expression. -/
theorem least_whole {locale : Ere.Locale} {q : Text} {r : Re} (hbrace : 0x7b ∉ q) (hq : ¬ Plain q)
    (h : parse locale ([0x5e] ++ expand q ++ [0x24]) = some r) : Least r < patternCost q := by
  obtain ⟨st, st', hw, htail, hfin⟩ := within_pattern hbrace h
  obtain ⟨hm', hle⟩ := least_le_spent hfin
  simp only [run_cons, run_nil, Option.bind_fun_some] at htail
  have hsp := hw.spent
  have hgap := hw.special hq
  cases hm : st.mode with
  | normal =>
    injection (show some (st.push .eol) = some st' by simpa [Ere.step, hm, sym] using htail) with hst
    have heol : Least .eol = 0 := rfl
    rw [← hst, spent_pushed] at hle
    omega
  | escape =>
    injection (show some (st.push (.byte 0x24)) = some st' by simpa [Ere.step, hm, sym] using htail) with hst
    rw [← hst, spent_pushed] at hle
    have hdollar : Least (.byte 0x24) = 2 := rfl
    simp only [hm, due] at hsp
    omega
  | bracket content sub =>
    rcases bracket_step hm htail with ⟨c, s, hc, -⟩ | ⟨he, -⟩
    · simp [hc] at hm'
    · exact absurd he (by decide)
  | interval ds => exact absurd hm (hw.mode ds)

theorem least_cut {locale : Ere.Locale} {q : Text} {r : Re} (hbrace : 0x7b ∉ q) (hq : ¬ Plain q)
    (h : parse locale ([0x5e] ++ expand q) = some r) : Least r + 2 ≤ patternCost q := by
  obtain ⟨st, st', hw, htail, hfin⟩ := @within_pattern locale q [] r hbrace (by simpa using h)
  injection htail with hst
  obtain ⟨-, hle⟩ := least_le_spent (hst ▸ hfin)
  have := hw.special hq
  omega

/-- Cut off between the backslash and the dot, there is nothing to compile, or
a backslash that the pattern itself had put before. -/
theorem least_cut_quote {locale : Ere.Locale} {q : Text} {r : Re} (hbrace : 0x7b ∉ q)
    (h : parse locale ([0x5e] ++ expand q ++ [0x5c]) = some r) : Least r ≤ patternCost q := by
  obtain ⟨st, st', hw, htail, hfin⟩ := within_pattern hbrace h
  obtain ⟨hm', hle⟩ := least_le_spent hfin
  simp only [run_cons, run_nil, Option.bind_fun_some] at htail
  have hsp := hw.spent
  cases hm : st.mode with
  | normal =>
    injection (show some { st with mode := .escape } = some st' by simpa [Ere.step, hm, sym] using htail) with hst
    rw [← hst] at hm'
    cases hm'
  | escape =>
    injection (show some (st.push (.byte 0x5c)) = some st' by simpa [Ere.step, hm, sym] using htail) with hst
    rw [← hst, spent_pushed] at hle
    have hquote : Least (.byte 0x5c) = 4 := rfl
    simp only [hm, due] at hsp
    omega
  | bracket content sub =>
    rcases bracket_step hm htail with ⟨c, s, hc, -⟩ | ⟨he, -⟩
    · simp [hc] at hm'
    · exact absurd he (by decide)
  | interval ds => exact absurd hm (hw.mode ds)

/-! ## Where the buffer ends -/

/-- A text cut off is that of another pattern, or ends between the backslash
and the dot. -/
theorem take_expand (p : Text) (n : Nat) :
    (∃ q, (expand p).take n = expand q ∧ patternCost q ≤ patternCost p + 1 ∧ (0x7b ∉ p → 0x7b ∉ q)) ∨
      ∃ q rest, p = q ++ 0x2e :: rest ∧ (expand p).take n = expand q ++ [0x5c] := by
  induction p generalizing n with
  | nil => exact .inl ⟨[], by simp [expand_eq], by simp, id⟩
  | cons b p ih =>
    have hstep : (expandByte b).length ≤ n →
        (expand (b :: p)).take n = expandByte b ++ (expand p).take (n - (expandByte b).length) := by
      intro hle
      rw [expand_cons, List.take_append, List.take_of_length_le hle]
    by_cases hle : (expandByte b).length ≤ n
    · rw [hstep hle]
      rcases ih (n - (expandByte b).length) with ⟨q, hq, hc, hb⟩ | ⟨q, rest, rfl, hq⟩
      · refine .inl ⟨b :: q, by rw [hq, expand_cons], by simp only [patternCost_cons]; omega, fun h => ?_⟩
        simp only [List.mem_cons, not_or] at h ⊢
        exact ⟨h.1, hb h.2⟩
      · exact .inr ⟨b :: q, rest, rfl, by rw [hq, expand_cons, List.append_assoc]⟩
    · match n with
      | 0 => exact .inl ⟨[], by simp [expand_eq], by simp, by simp⟩
      | 1 =>
        by_cases hdot : b = 0x2e
        · subst hdot
          exact .inr ⟨[], p, rfl, rfl⟩
        · by_cases hstar : b = 0x2a
          · subst hstar
            refine .inl ⟨[0x3f], rfl, ?_, fun _ => by decide⟩
            simp [byteCost]
          · exact absurd (by unfold expandByte; split_ifs <;> simp) hle
      | n + 2 => exact absurd (by unfold expandByte; split_ifs <;> simp) hle

theorem newPattern_whole {p : Text} (h : (expand p).length + 2 < maxStringLen) :
    newPattern p = [0x5e] ++ expand p ++ [0x24] := by
  rw [newPattern, List.take_of_length_le]
  simp only [List.length_append, List.length_singleton]
  omega

theorem newPattern_cut {p : Text} (h : ¬ (expand p).length + 2 < maxStringLen) :
    newPattern p = [0x5e] ++ (expand p).take (maxStringLen - 2) := by
  rw [newPattern, List.append_assoc, List.take_append, List.take_append]
  have hlen : maxStringLen - 1 - 1 - (expand p).length = 0 := by
    simp only [maxStringLen] at h ⊢
    omega
  simp only [List.length_singleton, hlen, List.take_zero, List.append_nil]
  rfl

/-! ## Both matchers -/

/-- `regcomp` and `regexec` follow POSIX wherever it defines the expression. -/
def Posix (locale : Ere.Locale) (regcomp : Regcomp) : Prop :=
  ∀ text r, parse locale text = some r → ∃ regexec, regcomp text = some regexec ∧ ∀ s, regexec s = true ↔ r.Found s

/-- The regular expression has the wildcard meaning, on every system. -/
def Agrees (locale : Ere.Locale) (p : Text) : Prop :=
  ∀ regcomp, Posix locale regcomp → ∀ s, Line s → (jaRegexp regcomp (some s) (some p) = true ↔ Wild p s)

/-- The rewritten pattern fits with its anchors and holds no byte with a
meaning of its own, or it is cut off where the rest says no more than `*`. -/
def Translates (p : Text) : Prop :=
  if (expand p).length + 2 < maxStringLen then Plain p
  else ∃ q, Plain q ∧ expand q = (expand p).take (maxStringLen - 2) ∧
    ∀ s, Line s → (Wild (q ++ [0x2a]) s ↔ Wild p s)

theorem jaRegexp_of_parse {locale : Ere.Locale} {regcomp : Regcomp} (h : Posix locale regcomp) {p : Text} {r : Re}
    (hr : parse locale (newPattern p) = some r) (s : Text) :
    jaRegexp regcomp (some s) (some p) = true ↔ r.Found s := by
  obtain ⟨regexec, hc, he⟩ := h _ r hr
  simp [jaRegexp, hc, he]

theorem agrees_of_translates {locale : Ere.Locale} {p : Text} (h : Translates p) : Agrees locale p := by
  intro regcomp hposix s hs
  unfold Translates at h
  split at h
  · rename_i hlen
    obtain ⟨r, hr, hfound⟩ := found_whole locale h
    rw [jaRegexp_of_parse hposix (newPattern_whole hlen ▸ hr), hfound s hs]
  · rename_i hlen
    obtain ⟨q, hq, he, hsame⟩ := h
    obtain ⟨r, hr, hfound⟩ := found_cut locale hq
    rw [he] at hr
    rw [jaRegexp_of_parse hposix (newPattern_cut hlen ▸ hr), hfound s hs, hsame s hs]

section
open Classical

/-- A system that rejects what POSIX leaves undefined. -/
noncomputable def strictRegcomp (locale : Ere.Locale) : Regcomp := fun text =>
  (parse locale text).map fun r s => decide (r.Found s)

theorem strictRegcomp_posix (locale : Ere.Locale) : Posix locale (strictRegcomp locale) := by
  intro text r hr
  exact ⟨fun s => decide (r.Found s), by simp [strictRegcomp, hr], fun s => by simp⟩

end

theorem line_someMatch {p : Text} (hp : Line p) : Line (someMatch p) := by
  intro b hb
  rcases mem_someMatch hb with h | rfl
  · exact hp b h
  · decide

/-- Where both agree the text compiles, and a match costs what the pattern
does. -/
theorem parse_of_agrees {locale : Ere.Locale} {p : Text} (hp : Line p) (h : Agrees locale p) :
    ∃ r, parse locale (newPattern p) = some r ∧ patternCost p ≤ Least r := by
  have hposix := strictRegcomp_posix locale
  have hsome := (h _ hposix _ (line_someMatch hp)).2 (wild_someMatch p)
  cases hr : parse locale (newPattern p) with
  | none => simp [jaRegexp, strictRegcomp, hr] at hsome
  | some r =>
    have hfound := (jaRegexp_of_parse hposix hr _).1 hsome
    obtain ⟨s, hs, hcost, hbytes⟩ := @Re.Found.shrink weight cheap 5 (fun b => (weight_bounds b).2)
      (by decide) r _ (fun b hb => (line_someMatch hp b hb).2) hfound
    have hline : Line s := fun b hb => by
      rcases hbytes b hb with h | rfl
      · exact line_someMatch hp b h
      · decide
    have hwild := (h _ hposix s hline).1 ((jaRegexp_of_parse hposix hr s).2 hs)
    exact ⟨r, rfl, Nat.le_trans (wild_cost hwild) hcost⟩

theorem translates_of_agrees {locale : Ere.Locale} {p : Text} (hp : Line p) (hbrace : 0x7b ∉ p) (h : Agrees locale p) :
    Translates p := by
  obtain ⟨r, hr, hcost⟩ := parse_of_agrees hp h
  unfold Translates
  split
  · rename_i hlen
    by_contra hplain
    rw [newPattern_whole hlen] at hr
    have := least_whole hbrace hplain hr
    omega
  · rename_i hlen
    rw [newPattern_cut hlen] at hr
    rcases take_expand p (maxStringLen - 2) with ⟨q, hq, hle, hb⟩ | ⟨q, rest, rfl, hq⟩
    · by_cases hplain : Plain q
      · refine ⟨q, hplain, hq.symm, fun s hs => ?_⟩
        obtain ⟨r', hr', hfound⟩ := found_cut locale hplain
        have hparse : parse locale (newPattern p) = some r' := by rw [newPattern_cut hlen, hq, hr']
        have hposix := strictRegcomp_posix locale
        rw [← hfound s hs, ← jaRegexp_of_parse hposix hparse s]
        exact h _ hposix s hs
      · have := least_cut (hb hbrace) hplain (hq ▸ hr)
        omega
    · have hq' : 0x7b ∉ q := fun hc => hbrace (List.mem_append_left _ hc)
      have hle := least_cut_quote hq' (by rw [List.append_assoc, ← hq]; exact hr)
      have hdot : byteCost 0x2e = 3 := rfl
      simp only [patternCost_append, patternCost_cons, hdot] at hcost
      omega

/-- A bracket expression without ranges and classes. -/
def plainBrackets : Ere.Locale := fun content => some fun b => content.contains b

end JobArranger.Match
