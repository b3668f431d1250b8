import Mathlib.Data.List.TakeWhile
import TableDialects.Proofs.Text.Classes
import TableDialects.Token.Scan

/- Thinning out a text. A text is thinned by writing separators for stretches of
   it, which may be empty, and by cutting off its end. What the scanner looks for
   behind a token, characters that would lengthen it, a closing quote and the end of
   a comment, stays away from a text that is thinned. The parts of the scanner are
   told here by what they read: quoted text, comments, numbers, words and marks. -/
namespace TableDialects

/-- Whether the character parts tokens, so that every token ends before it: white
space, a parenthesis, a comma or a semicolon. -/
def isSeparator (c : Char) : Bool :=
  Text.isBlank c || c == '(' || c == ')' || c == ',' || c == ';'

theorem isSeparator_of_isBlank {c : Char} (h : Text.isBlank c = true) : isSeparator c = true := by
  unfold isSeparator
  rw [h]
  rfl

/-- The second text is the first one with stretches replaced by single separators
and possibly cut off at its end. A stretch may be empty: its separator is then an
addition. -/
inductive Thinned : Text → Text → Prop
  | stop (s : Text) : Thinned s []
  | keep (c : Char) {s s' : Text} (h : Thinned s s') : Thinned (c :: s) (c :: s')
  | gap {c : Char} (hc : isSeparator c = true) (g : Text) {s s' : Text} (h : Thinned s s') :
    Thinned (g ++ s) (c :: s')

/-- What is false of white space and of the four marks is false of separators. -/
theorem of_isSeparator {p : Char → Bool} (hblank : ∀ c, Text.isBlank c = true → p c = false)
    (hmark : ∀ c ∈ ['(', ')', ',', ';'], p c = false) {c : Char} (hc : isSeparator c = true) :
    p c = false := by
  simp only [isSeparator, Bool.or_eq_true, beq_iff_eq, or_assoc] at hc
  rcases hc with hc | hc
  · exact hblank c hc
  · exact hmark c (by simpa using hc)

theorem isDigit_of_isSeparator {c : Char} (hc : isSeparator c = true) : Text.isDigit c = false :=
  of_isSeparator (fun _ => Text.isDigit_of_isBlank) (by decide) hc

theorem ne_of_isSeparator {c d : Char} (hc : isSeparator c = true) (hd : isSeparator d = false) :
    c ≠ d := by
  rintro rfl
  rw [hc] at hd
  cases hd

/-- No character that satisfies `p` stands at the start of the text. -/
def Stops (p : Char → Bool) (s : Text) : Prop := ∀ c ∈ s.head?, p c = false

theorem stops_nil (p : Char → Bool) : Stops p [] := by
  intro c hc
  cases hc

theorem stops_cons {p : Char → Bool} {c : Char} {s : Text} : Stops p (c :: s) ↔ p c = false := by
  constructor
  · intro h
    exact h c rfl
  · intro h d hd
    cases hd
    exact h

theorem stops_dropWhile (p : Char → Bool) (s : Text) : Stops p (s.dropWhile p) := by
  intro c hc
  have h := List.head?_dropWhile_not p s
  rw [Option.mem_def.1 hc] at h
  simpa using h

theorem Stops.takeWhile_append {p : Char → Bool} {v r : Text} (hr : Stops p r)
    (hv : ∀ c ∈ v, p c = true) : (v ++ r).takeWhile p = v := by
  rw [List.takeWhile_append_of_pos hv]
  cases r with
  | nil => simp
  | cons d r => rw [List.takeWhile_cons, stops_cons.1 hr]; simp

theorem Stops.dropWhile_append {p : Char → Bool} {v r : Text} (hr : Stops p r)
    (hv : ∀ c ∈ v, p c = true) : (v ++ r).dropWhile p = r := by
  rw [List.dropWhile_append_of_pos hv]
  cases r with
  | nil => rfl
  | cons d r => rw [List.dropWhile_cons, stops_cons.1 hr]; simp

namespace Thinned

theorem append (v : Text) {r r' : Text} (h : Thinned r r') : Thinned (v ++ r) (v ++ r') := by
  induction v with
  | nil => exact h
  | cons c v ih => exact keep c ih

theorem left (s r : Text) : Thinned (s ++ r) s := by
  have := append s (.stop r)
  rwa [List.append_nil] at this

/-- A thinned text starts with a separator or as the text did. -/
theorem of_cons {s s' : Text} {c : Char} (h : Thinned s (c :: s')) (hc : isSeparator c = false) :
    ∃ r, s = c :: r ∧ Thinned r s' := by
  cases h with
  | keep c h => exact ⟨_, rfl, h⟩
  | gap hsep g h => exact absurd rfl (ne_of_isSeparator hsep hc)

theorem not_mem {q : Char} (hq : isSeparator q = false) {s s' : Text} (h : Thinned s s')
    (hs : q ∉ s) :
    q ∉ s' := by
  induction h with
  | stop => exact List.not_mem_nil
  | keep c h ih =>
    rw [List.mem_cons, not_or] at hs ⊢
    exact ⟨hs.1, ih hs.2⟩
  | gap hsep g h ih =>
    rw [List.mem_append, not_or] at hs
    rw [List.mem_cons, not_or]
    exact ⟨(ne_of_isSeparator hsep hq).symm, ih hs.2⟩

theorem stops {p : Char → Bool} (hp : ∀ c, isSeparator c = true → p c = false) {s s' : Text}
    (h : Thinned s s') (hs : Stops p s) : Stops p s' := by
  cases h with
  | stop => exact stops_nil p
  | keep c h => exact stops_cons.2 (stops_cons.1 hs)
  | gap hsep g h => exact stops_cons.2 (hp _ hsep)

end Thinned

/-! ## Quotes and comments -/

/-- A quote is never closed only if no closing quote follows at all. -/
theorem closeQuote?_eq_none_iff {q : Char} {s : Text} :
    Text.closeQuote? q s = none ↔ q ∉ s := by
  fun_induction Text.closeQuote? q s with
  | case1 => simp
  | case2 => simp
  | case3 c hc => simpa using fun h => hc h.symm
  | case4 => simp
  | case5 => simp
  | case6 => simp
  | case7 c d s hc body rest h ih =>
    rw [h] at ih
    simp only [reduceCtorEq, false_iff, Decidable.not_not] at ih ⊢
    exact List.mem_cons_of_mem c ih
  | case8 c d s hc h ih =>
    have hs := ih.1 h
    simp only [List.mem_cons, not_or] at hs ⊢
    exact ⟨fun _ => ⟨fun h => hc h.symm, hs⟩, fun _ => trivial⟩

namespace Scan

theorem closeComment?_tail {c : Char} {s : Text} (h : closeComment? (c :: s) = none) : closeComment? s = none := by
  cases s with
  | nil => rfl
  | cons d s =>
    rw [closeComment?] at h
    split at h
    · cases h
    · cases hs : closeComment? (d :: s) with
      | none => rfl
      | some p =>
        rw [hs] at h
        cases h

theorem closeComment?_thinned {s s' : Text} (h : closeComment? s = none) (ht : Thinned s s') :
    closeComment? s' = none := by
  induction ht with
  | stop => rfl
  | keep c ht ih =>
    rename_i s s'
    cases s' with
    | nil => rfl
    | cons d s' =>
      have htail : closeComment? s = none := closeComment?_tail h
      have hcd : ¬ (c == '*' && d == '/') = true := by
        intro hcd
        simp only [Bool.and_eq_true, beq_iff_eq] at hcd
        obtain ⟨rfl, rfl⟩ := hcd
        obtain ⟨r, rfl, -⟩ := ht.of_cons (by decide)
        simp [closeComment?] at h
      simp only [closeComment?, hcd, ih htail, Bool.false_eq_true, if_false]
  | gap hsep g ht ih =>
    rename_i c s s'
    -- The separator is no star, so that it does not end the comment with a slash behind it.
    have hstar : c ≠ '*' := ne_of_isSeparator hsep (by decide)
    have hs : closeComment? s = none := by
      clear ih ht
      induction g with
      | nil => exact h
      | cons c g ihg => exact ihg (closeComment?_tail h)
    cases s' with
    | nil => rfl
    | cons d s' => simp [closeComment?, ih hs, hstar]

theorem comment?_single (c : Char) : comment? [c] = none := by
  unfold comment? blockComment?
  split <;> simp_all

theorem comment?_cons (c d : Char) (s : Text) :
    comment? (c :: d :: s) =
      if c = '-' ∧ d = '-' then
        some ⟨.gap, '-' :: '-' :: s.takeWhile (· != '\n'), s.dropWhile (· != '\n')⟩
      else if c = '/' ∧ d = '*' then
        (closeComment? s).map fun p => ⟨.gap, '/' :: '*' :: p.1, p.2⟩
      else none := by
  unfold comment? blockComment?
  split
  · rename_i heq
    cases heq
    rw [if_pos ⟨rfl, rfl⟩]
  · rename_i hline
    rw [if_neg (by rintro ⟨rfl, rfl⟩; exact hline s rfl)]
    split
    · rename_i heq
      cases heq
      rw [if_pos ⟨rfl, rfl⟩]
      cases closeComment? s <;> rfl
    · rename_i hblock
      rw [if_neg (by rintro ⟨rfl, rfl⟩; exact hblock s rfl)]

theorem comment?_thinned {c : Char} {s s' : Text} (h : comment? (c :: s) = none)
    (ht : Thinned s s') : comment? (c :: s') = none := by
  cases s' with
  | nil => exact comment?_single c
  | cons d s' =>
    rw [comment?_cons]
    cases hd : isSeparator d with
    | true =>
      rw [if_neg fun h => ne_of_isSeparator hd (by decide) h.2,
        if_neg fun h => ne_of_isSeparator hd (by decide) h.2]
    | false =>
      obtain ⟨r, rfl, hr⟩ := ht.of_cons hd
      rw [comment?_cons] at h
      split at h
      · cases h
      · rename_i hline
        rw [if_neg hline]
        split at h
        · rename_i hblock
          rw [if_pos hblock, closeComment?_thinned (Option.map_eq_none_iff.1 h) hr]
          rfl
        · rename_i hblock
          rw [if_neg hblock]

theorem quote?_eq_none_iff {kind : TokenKind} {lead : Text} {q : Char} {s : Text} :
    quote? kind lead q s = none ↔ q ∉ s := by
  unfold quote?
  rw [← closeQuote?_eq_none_iff]
  cases Text.closeQuote? q s <;> simp

theorem string?_other {c : Char} {s : Text} (hc : c ≠ '\'') (hs : Stops (· == '\'') s) :
    string? (c :: s) = none := by
  unfold string?
  split
  · rename_i heq
    cases heq
    exact absurd rfl hc
  · rename_i heq
    cases heq
    simpa using stops_cons.1 hs
  · rfl

theorem string?_prefixed {c : Char} (hc : c ≠ '\'') (s : Text) :
    string? (c :: '\'' :: s) =
      if c == 'N' || c == 'n' then quote? .string [c, '\''] '\'' s else none := by
  unfold string?
  split
  · rename_i heq
    cases heq
    exact absurd rfl hc
  · rename_i heq
    cases heq
    rfl
  · rename_i hne
    exact absurd rfl (hne c s)

theorem ident?_cons (c : Char) (s : Text) :
    ident? (c :: s) =
      if c = '`' then quote? .ident ['`'] '`' s
      else if c = '"' then quote? .ident ['"'] '"' s
      else if c = '[' then quote? .ident ['['] ']' s
      else none := by
  unfold ident?
  split
  · rename_i heq; cases heq; rfl
  · rename_i heq; cases heq; rfl
  · rename_i heq; cases heq; rfl
  · rename_i h1 h2 h3
    rw [if_neg (fun e => h1 s (by rw [e])), if_neg (fun e => h2 s (by rw [e])),
      if_neg (fun e => h3 s (by rw [e]))]

/-! ## Numbers and words -/

/-- Digits, possibly with a point among, before or behind them. -/
inductive IsMantissa : Text → Prop
  | whole {ds : Text} (hne : ds ≠ []) (hd : ∀ c ∈ ds, Text.isDigit c = true) : IsMantissa ds
  | point {ds es : Text} (hne : ds ++ es ≠ []) (hd : ∀ c ∈ ds, Text.isDigit c = true)
    (he : ∀ c ∈ es, Text.isDigit c = true) : IsMantissa (ds ++ '.' :: es)

/-- The text does not go on as a mantissa: with a digit, or with a point behind
digits alone. -/
def StopsMantissa (v x : Text) : Prop :=
  Stops Text.isDigit x ∧ ('.' ∉ v → Stops (· == '.') x)

theorem not_isDigit_point : Text.isDigit '.' = false := by decide

theorem point_not_mem {ds : Text} (hd : ∀ c ∈ ds, Text.isDigit c = true) : '.' ∉ ds := by
  intro h
  have := hd _ h
  rw [not_isDigit_point] at this
  cases this

theorem mantissaLength_append {v x : Text} (hv : IsMantissa v) (hx : StopsMantissa v x) :
    mantissaLength (v ++ x) = v.length := by
  unfold mantissaLength
  cases hv with
  | whole hne hd =>
    have hp := hx.2 (point_not_mem hd)
    rw [hx.1.takeWhile_append hd, hx.1.dropWhile_append hd]
    split
    · cases stops_cons.1 hp
    · rfl
  | @point ds es hne hd he =>
    have hy : Stops Text.isDigit ('.' :: (es ++ x)) := stops_cons.2 not_isDigit_point
    rw [List.append_assoc, List.cons_append, hy.takeWhile_append hd, hy.dropWhile_append hd]
    simp only [hx.1.takeWhile_append he, List.length_append, List.length_cons]
    rw [if_neg]
    · omega
    · simpa using fun h h' => hne (by rw [h, h']; rfl)

theorem mantissaLength_eq_zero {s : Text} (hs : Stops Text.isDigit s)
    (hp : ∀ t, s = '.' :: t → Stops Text.isDigit t) : mantissaLength s = 0 := by
  have htw : s.takeWhile Text.isDigit = [] := by
    simpa using hs.takeWhile_append (v := []) (by simp)
  have hdw : s.dropWhile Text.isDigit = s := by
    simpa using hs.dropWhile_append (v := []) (by simp)
  unfold mantissaLength
  rw [htw, hdw]
  split
  · rename_i t
    have htt : t.takeWhile Text.isDigit = [] := by
      simpa using (hp t rfl).takeWhile_append (v := []) (by simp)
    simp [htt]
  · rfl

/-- The mantissa at the start of a text, or the reason why there is none. -/
theorem mantissa_cases (s : Text) :
    (Stops Text.isDigit s ∧ ∀ t, s = '.' :: t → Stops Text.isDigit t) ∨
      ∃ v x, IsMantissa v ∧ StopsMantissa v x ∧ s = v ++ x := by
  have hs := (List.takeWhile_append_dropWhile (p := Text.isDigit) (l := s)).symm
  have hd : ∀ c ∈ s.takeWhile Text.isDigit, Text.isDigit c = true := fun c => List.mem_takeWhile_imp
  have hstop := stops_dropWhile Text.isDigit s
  generalize s.takeWhile Text.isDigit = ds at hs hd
  generalize s.dropWhile Text.isDigit = y at hs hstop
  subst hs
  by_cases hp : Stops (· == '.') y
  · by_cases hds : ds = []
    · subst hds
      refine Or.inl ⟨hstop, ?_⟩
      rintro t rfl
      cases stops_cons.1 hp
    · exact Or.inr ⟨ds, y, .whole hds hd, ⟨hstop, fun _ => hp⟩, rfl⟩
  · cases y with
    | nil => exact absurd (stops_nil _) hp
    | cons c t =>
      have hc : c = '.' := by
        apply Decidable.byContradiction
        intro hc
        exact hp (stops_cons.2 (by simpa using hc))
      subst hc
      have ht := (List.takeWhile_append_dropWhile (p := Text.isDigit) (l := t)).symm
      have he : ∀ c ∈ t.takeWhile Text.isDigit, Text.isDigit c = true := fun c => List.mem_takeWhile_imp
      have hstop' := stops_dropWhile Text.isDigit t
      generalize t.takeWhile Text.isDigit = es at ht he
      generalize t.dropWhile Text.isDigit = x at ht hstop'
      subst ht
      by_cases hne : ds ++ es = []
      · obtain ⟨rfl, rfl⟩ := List.append_eq_nil_iff.1 hne
        refine Or.inl ⟨hstop, ?_⟩
        rintro t heq
        cases heq
        exact hstop'
      · refine Or.inr ⟨_, x, .point hne hd he, ⟨hstop', fun h => ?_⟩, by simp⟩
        simp at h

theorem IsMantissa.ne_nil {v : Text} (hv : IsMantissa v) : v ≠ [] := by
  cases hv with
  | whole hne => exact hne
  | point => simp

/-- The sign of an exponent, which may be absent, behind its letter. -/
def IsExponentLead (lead : Text) : Prop :=
  ∃ e, (e = 'e' ∨ e = 'E') ∧ (lead = [e] ∨ lead = [e, '+'] ∨ lead = [e, '-'])

theorem exponentLength_append {lead ds x : Text} (hl : IsExponentLead lead) (hne : ds ≠ [])
    (hd : ∀ c ∈ ds, Text.isDigit c = true) (hx : Stops Text.isDigit x) :
    exponentLength (lead ++ ds ++ x) = lead.length + ds.length := by
  obtain ⟨e, he, hlead⟩ := hl
  have he' : (e == 'e' || e == 'E') = true := by rcases he with rfl | rfl <;> rfl
  have htw := hx.takeWhile_append hd
  cases ds with
  | nil => exact absurd rfl hne
  | cons d ds =>
    have hdd : Text.isDigit d = true := hd d (by simp)
    have hsign : (d == '+' || d == '-') = false := by
      cases hs : (d == '+' || d == '-') with
      | false => rfl
      | true =>
        simp only [Bool.or_eq_true, beq_iff_eq] at hs
        rcases hs with rfl | rfl <;> cases hdd
    rcases hlead with rfl | rfl | rfl
    · cases hr : ds ++ x with
      | nil =>
        obtain ⟨rfl, rfl⟩ := List.append_eq_nil_iff.1 hr
        simp [exponentLength, he', hdd]
      | cons f r =>
        simp only [List.cons_append, hr] at htw
        simp only [List.cons_append, List.nil_append, hr]
        simp [exponentLength, he', hsign, hdd, htw]
    · simp only [List.cons_append] at htw
      simp [exponentLength, he', hdd, htw]
    · simp only [List.cons_append] at htw
      simp [exponentLength, he', hdd, htw]

theorem exponent_cases {x : Text} (h : exponentLength x ≠ 0) :
    ∃ lead ds y, IsExponentLead lead ∧ ds ≠ [] ∧ (∀ c ∈ ds, Text.isDigit c = true) ∧
      Stops Text.isDigit y ∧ x = lead ++ ds ++ y := by
  have split_digits : ∀ {d : Char} {t : Text}, Text.isDigit d = true →
      ∃ ds y, ds ≠ [] ∧ (∀ c ∈ ds, Text.isDigit c = true) ∧ Stops Text.isDigit y ∧
        d :: t = ds ++ y := by
    intro d t hd
    refine ⟨(d :: t).takeWhile Text.isDigit, (d :: t).dropWhile Text.isDigit, ?_,
      fun c => List.mem_takeWhile_imp, stops_dropWhile _ _, (List.takeWhile_append_dropWhile ..).symm⟩
    rw [List.takeWhile_cons, if_pos hd]
    simp
  unfold exponentLength at h
  split at h
  · rename_i e sign d t
    split at h
    · rename_i he
      have he : e = 'e' ∨ e = 'E' := by simpa using he
      split at h
      · rename_i hsign
        split at h
        · rename_i hd
          obtain ⟨ds, y, hne, hds, hy, heq⟩ := split_digits (t := t) hd
          refine ⟨[e, sign], ds, y, ⟨e, he, ?_⟩, hne, hds, hy, ?_⟩
          · simp only [Bool.or_eq_true, beq_iff_eq] at hsign
            rcases hsign with rfl | rfl <;> simp
          · rw [heq]; simp
        · exact absurd rfl h
      · split at h
        · rename_i hd
          obtain ⟨ds, y, hne, hds, hy, heq⟩ := split_digits (t := d :: t) hd
          exact ⟨[e], ds, y, ⟨e, he, Or.inl rfl⟩, hne, hds, hy, by rw [heq]; simp⟩
        · exact absurd rfl h
    · exact absurd rfl h
  · rename_i e d
    split at h
    · rename_i hed
      simp only [Bool.and_eq_true, Bool.or_eq_true, beq_iff_eq] at hed
      refine ⟨[e], [d], [], ⟨e, hed.1, Or.inl rfl⟩, by simp, ?_, stops_nil _, rfl⟩
      simpa using hed.2
    · exact absurd rfl h
  · exact absurd rfl h

theorem exponentLength_ne_zero {lead : Text} (hl : IsExponentLead lead) {d : Char} (hd : Text.isDigit d = true)
    (r : Text) : exponentLength (lead ++ d :: r) ≠ 0 := by
  have hsplit := (List.takeWhile_append_dropWhile (p := Text.isDigit) (l := d :: r)).symm
  have hne : (d :: r).takeWhile Text.isDigit ≠ [] := by
    rw [List.takeWhile_cons, if_pos hd]
    simp
  have hlen := exponentLength_append hl hne (fun c => List.mem_takeWhile_imp) (stops_dropWhile Text.isDigit (d :: r))
  rw [List.append_assoc, ← hsplit] at hlen
  have := List.length_pos_iff.2 hne
  omega

/-- An exponent does not appear by thinning: its letter, sign and first digit
would have been there before. -/
theorem exponentLength_thinned {x x' : Text} (h : exponentLength x = 0) (ht : Thinned x x') :
    exponentLength x' = 0 := by
  apply Decidable.byContradiction
  intro hne
  obtain ⟨lead, ds, y', ⟨e, he, hlead⟩, hds, hd, -, rfl⟩ := exponent_cases hne
  have he' : isSeparator e = false := by rcases he with rfl | rfl <;> decide
  cases ds with
  | nil => exact hds rfl
  | cons d ds =>
    have hdd : Text.isDigit d = true := hd d (by simp)
    have hdne : isSeparator d = false := by
      cases hd : isSeparator d with
      | false => rfl
      | true => rw [isDigit_of_isSeparator hd] at hdd; cases hdd
    have found : ∀ {lead r : Text}, IsExponentLead lead → x = lead ++ d :: r → False := by
      rintro lead r hl rfl
      exact exponentLength_ne_zero hl hdd r h
    rcases hlead with rfl | rfl | rfl
    · obtain ⟨r, rfl, hr⟩ := ht.of_cons he'
      obtain ⟨r', rfl, -⟩ := hr.of_cons hdne
      exact found ⟨e, he, Or.inl rfl⟩ rfl
    · obtain ⟨r, rfl, hr⟩ := ht.of_cons he'
      obtain ⟨r', rfl, hr'⟩ := hr.of_cons (by decide)
      obtain ⟨r'', rfl, -⟩ := hr'.of_cons hdne
      exact found ⟨e, he, Or.inr (Or.inl rfl)⟩ rfl
    · obtain ⟨r, rfl, hr⟩ := ht.of_cons he'
      obtain ⟨r', rfl, hr'⟩ := hr.of_cons (by decide)
      obtain ⟨r'', rfl, -⟩ := hr'.of_cons hdne
      exact found ⟨e, he, Or.inr (Or.inr rfl)⟩ rfl

/-- A number in front of a text that does not go on with it: a mantissa alone,
or a mantissa with an exponent. -/
inductive ReadsNumber : Text → Text → Prop
  | plain {v r : Text} (hv : IsMantissa v) (hr : StopsMantissa v r)
    (he : exponentLength r = 0) : ReadsNumber v r
  | scaled {v lead ds r : Text} (hv : IsMantissa v) (hl : IsExponentLead lead) (hne : ds ≠ [])
    (hd : ∀ c ∈ ds, Text.isDigit c = true) (hr : Stops Text.isDigit r) :
    ReadsNumber (v ++ (lead ++ ds)) r

theorem stopsMantissa_lead {v lead : Text} (hl : IsExponentLead lead) (x : Text) :
    StopsMantissa v (lead ++ x) := by
  obtain ⟨e, he, hlead⟩ := hl
  have hdigit : Text.isDigit e = false := by rcases he with rfl | rfl <;> decide
  have hpoint : (e == '.') = false := by rcases he with rfl | rfl <;> decide
  rcases hlead with rfl | rfl | rfl
  · exact ⟨stops_cons.2 hdigit, fun _ => stops_cons.2 hpoint⟩
  · exact ⟨stops_cons.2 hdigit, fun _ => stops_cons.2 hpoint⟩
  · exact ⟨stops_cons.2 hdigit, fun _ => stops_cons.2 hpoint⟩

theorem number?_of_lengths {v x y : Text} {n : Nat} (hne : v ≠ [])
    (hm : mantissaLength (v ++ x) = v.length) (he : exponentLength x = n)
    (hx : x.drop n = y) :
    number? (v ++ x) = some ⟨.token .number, v ++ x.take n, y⟩ := by
  have hpos := List.length_pos_iff.2 hne
  unfold number?
  rw [hm]
  simp only [cut, beq_iff_eq]
  rw [if_neg (by omega), List.drop_left, he, List.take_length_add_append,
    List.drop_length_add_append, hx]

theorem ReadsNumber.number? {v r : Text} (h : ReadsNumber v r) :
    number? (v ++ r) = some ⟨.token .number, v, r⟩ := by
  cases h with
  | plain hv hr he =>
    have := number?_of_lengths hv.ne_nil (mantissaLength_append hv hr) he (y := r) rfl
    simpa using this
  | @scaled v lead ds _ hv hl hne hd hr =>
    have hm : mantissaLength (v ++ (lead ++ (ds ++ r))) = v.length :=
      mantissaLength_append hv (stopsMantissa_lead hl _)
    have he := exponentLength_append hl hne hd hr
    rw [List.append_assoc] at he
    have hn := number?_of_lengths hv.ne_nil hm he (y := r) (by
      rw [← List.length_append, ← List.append_assoc, List.drop_left])
    rw [← List.length_append, ← List.append_assoc lead, List.take_left] at hn
    simpa using hn

theorem number?_eq_some {s : Text} {p : Piece} (h : number? s = some p) :
    ∃ v r, s = v ++ r ∧ ReadsNumber v r ∧ p = ⟨.token .number, v, r⟩ := by
  rcases mantissa_cases s with ⟨hs, hp⟩ | ⟨v, x, hv, hx, rfl⟩
  · unfold number? at h
    rw [mantissaLength_eq_zero hs hp] at h
    cases h
  · by_cases he : exponentLength x = 0
    · have hr := ReadsNumber.plain hv hx he
      rw [hr.number?] at h
      cases h
      exact ⟨v, x, rfl, hr, rfl⟩
    · obtain ⟨lead, ds, y, hl, hne, hd, hy, rfl⟩ := exponent_cases he
      have hr := ReadsNumber.scaled hv hl hne hd hy
      have heq : v ++ (lead ++ ds ++ y) = v ++ (lead ++ ds) ++ y := by simp
      rw [heq, hr.number?] at h
      cases h
      exact ⟨_, y, heq, hr, rfl⟩

theorem number?_eq_none {s : Text} (h : number? s = none) :
    Stops Text.isDigit s ∧ ∀ t, s = '.' :: t → Stops Text.isDigit t := by
  rcases mantissa_cases s with hs | ⟨v, x, hv, hx, rfl⟩
  · exact hs
  · have hpos := List.length_pos_iff.2 hv.ne_nil
    unfold number? at h
    rw [mantissaLength_append hv hx] at h
    simp only [beq_iff_eq] at h
    rw [if_neg (by omega)] at h
    cases h

theorem ReadsNumber.thinned {v r r' : Text} (h : ReadsNumber v r) (ht : Thinned r r') :
    ReadsNumber v r' := by
  cases h with
  | plain hv hr he =>
    have hpoint : ∀ c, isSeparator c = true → (c == '.') = false := fun c hc =>
      beq_eq_false_iff_ne.2 (ne_of_isSeparator hc (by decide))
    exact .plain hv ⟨ht.stops (fun _ => isDigit_of_isSeparator) hr.1,
      fun h => ht.stops hpoint (hr.2 h)⟩ (exponentLength_thinned he ht)
  | scaled hv hl hne hd hr =>
    exact .scaled hv hl hne hd (ht.stops (fun _ => isDigit_of_isSeparator) hr)

theorem word?_append {c : Char} {v r : Text} (hc : startsWord c = true)
    (hv : ∀ d ∈ v, continuesWord d = true) (hr : Stops continuesWord r) :
    word? (c :: (v ++ r)) = some ⟨.token .word, c :: v, r⟩ := by
  unfold word?
  dsimp only
  rw [if_pos hc, hr.takeWhile_append hv, hr.dropWhile_append hv]

theorem word?_eq_some {s : Text} {p : Piece} (h : word? s = some p) :
    ∃ c v r, s = c :: (v ++ r) ∧ startsWord c = true ∧ (∀ d ∈ v, continuesWord d = true) ∧
      Stops continuesWord r ∧ p = ⟨.token .word, c :: v, r⟩ := by
  unfold word? at h
  split at h
  · cases h
  · split at h
    · rename_i c s hc
      cases h
      exact ⟨c, _, _, by rw [List.takeWhile_append_dropWhile], hc, fun d => List.mem_takeWhile_imp,
        stops_dropWhile _ _, rfl⟩
    · cases h

theorem continuesWord_of_isBlank {c : Char} (h : Text.isBlank c = true) :
    continuesWord c = false := by
  unfold continuesWord
  rw [Text.isWordChar_of_isBlank h]
  have hne : ∀ d, Text.isBlank d = false → (c == d) = false := by
    intro d hd
    rw [beq_eq_false_iff_ne]
    rintro rfl
    rw [h] at hd
    cases hd
  rw [hne '$' (by decide), hne '#' (by decide), hne '@' (by decide)]
  rfl

theorem continuesWord_of_isSeparator {c : Char} (hc : isSeparator c = true) :
    continuesWord c = false :=
  of_isSeparator (fun _ => continuesWord_of_isBlank) (by decide) hc

/-! ## Marks and gaps -/

theorem mark_of_isMark {c : Char} (hc : isMark c = true) (s : Text) :
    mark c s = ⟨.token .punct, [c], s⟩ := by
  cases s with
  | nil => unfold mark; dsimp only; rw [if_pos hc]
  | cons d s => unfold mark; dsimp only; rw [if_pos hc]

theorem mark_of_isPair {c d : Char} (hc : isMark c = false) (hd : isPair c d = true) (s : Text) :
    mark c (d :: s) = ⟨.token .op, [c, d], s⟩ := by
  unfold mark
  dsimp only
  rw [hc, if_neg Bool.false_ne_true, if_pos hd]

theorem mark_of_stops {c : Char} {s : Text} (hc : isMark c = false) (hs : Stops (isPair c) s) :
    mark c s = ⟨.token .op, [c], s⟩ := by
  cases s with
  | nil =>
    unfold mark
    dsimp only
    rw [hc, if_neg Bool.false_ne_true]
  | cons d s =>
    unfold mark
    dsimp only
    rw [hc, if_neg Bool.false_ne_true, stops_cons.1 hs, if_neg Bool.false_ne_true]

theorem isPair_of_isSeparator (c : Char) {d : Char} (hd : isSeparator d = true) :
    isPair c d = false := by
  have hne : ∀ e, isSeparator e = false → (d == e) = false := fun e he =>
    beq_eq_false_iff_ne.2 (ne_of_isSeparator hd he)
  unfold isPair
  rw [hne ':' (by decide), hne '>' (by decide), hne '=' (by decide), hne '|' (by decide)]
  simp

theorem space?_eq_none {c : Char} {s : Text} : space? (c :: s) = none ↔ Text.isBlank c = false := by
  rw [space?]
  cases Text.isBlank c <;> simp

theorem comment?_gap {s : Text} {p : Piece} (h : comment? s = some p) : p.kind = .gap := by
  unfold comment? blockComment? at h
  split at h
  · cases h; rfl
  · split at h
    · split at h
      · cases h; rfl
      · cases h
    · cases h

end Scan

end TableDialects
