import TableDialects.Proofs.Token.Thinning

/- The rules of the scanner, one for each kind of token. A rule says how the token is
   spelled and what may not stand behind it; together they are the scanner
   (`readsToken_iff`), so that whether a token is read in front of a text is settled
   by the rule of its kind. The rules look behind a token only for characters that
   would lengthen it, for a closing quote and for the end of a comment, and thinning
   adds none of these: a token is read the same in front of a text and in front of
   that text thinned (`ReadsToken.thinned`).

   This does not hold of white space and comments: the space that stands for one
   of them may touch white space behind it. -/
namespace TableDialects

open Scan

/-- The text `v` is read as a token in front of `r`. -/
def ReadsToken (k : TokenKind) (v r : Text) : Prop :=
  ∃ c w, v = c :: w ∧ piece c (w ++ r) = ⟨.token k, v, r⟩

theorem ReadsToken.stops_blank {k : TokenKind} {v r : Text} (h : ReadsToken k v r) (x : Text) :
    Stops Text.isBlank (v ++ x) := by
  obtain ⟨c, w, rfl, hp⟩ := h
  rw [List.cons_append, stops_cons]
  cases hc : Text.isBlank c with
  | false => rfl
  | true =>
    unfold piece at hp
    rw [space?, if_pos hc] at hp
    cases hp

/-! ## Text in quotes -/

/-- What follows an opening quote, up to and including the closing one: each
quote inside is doubled. -/
inductive QuotedBody (q : Char) : Text → Prop
  | close : QuotedBody q [q]
  | pair {b : Text} (h : QuotedBody q b) : QuotedBody q (q :: q :: b)
  | other {c : Char} {b : Text} (hc : c ≠ q) (h : QuotedBody q b) : QuotedBody q (c :: b)

theorem QuotedBody.ne_nil {q : Char} {b : Text} (h : QuotedBody q b) : b ≠ [] := by
  cases h <;> exact List.cons_ne_nil _ _

/-- Whether text that the quote `q` closes goes on in the text behind it: with a
second `q` that makes the closing one a doubled one, and another one that closes. -/
def runsOn (q : Char) : Text → Bool
  | [] => false
  | c :: r => c == q && r.contains q

theorem runsOn_of_stops {q : Char} {r : Text} (hr : Stops (· == q) r) : runsOn q r = false := by
  cases r with
  | nil => rfl
  | cons c r => rw [runsOn, stops_cons.1 hr, Bool.false_and]

theorem QuotedBody.closeQuote? {q : Char} {b r : Text} (h : QuotedBody q b)
    (hr : runsOn q r = false) : Text.closeQuote? q (b ++ r) = some (b, r) := by
  induction h with
  | close =>
    cases r with
    | nil => simp [Text.closeQuote?]
    | cons d r =>
      by_cases hd : d = q
      · -- The two quotes are no doubled one, as nothing closes behind them.
        have hnone : Text.closeQuote? q r = none :=
          closeQuote?_eq_none_iff.2 (by simpa [runsOn, hd] using hr)
        simp [Text.closeQuote?, hd, hnone]
      · simp [Text.closeQuote?, hd]
  | pair h ih => simp [Text.closeQuote?, ih]
  | @other c b hc h ih =>
    cases b with
    | nil => exact absurd rfl h.ne_nil
    | cons d b =>
      rw [List.cons_append] at ih
      simp [Text.closeQuote?, hc, ih]

theorem quotedBody_of_closeQuote? {q : Char} {s body rest : Text}
    (h : Text.closeQuote? q s = some (body, rest)) : QuotedBody q body := by
  fun_induction Text.closeQuote? q s generalizing body rest with
  | case1 => cases h
  | case2 => cases h; exact .close
  | case3 => cases h
  | case4 => cases h; rename_i hs ih; exact .pair (ih hs)
  | case5 => cases h; exact .close
  | case6 => cases h; exact .close
  | case7 => cases h; rename_i hc _ _ hs ih; exact .other hc (ih hs)
  | case8 => cases h

/-- What is closed is closed before text in which it does not go on. -/
theorem runsOn_of_closeQuote? {q : Char} {s body rest : Text}
    (h : Text.closeQuote? q s = some (body, rest)) : runsOn q rest = false := by
  fun_induction Text.closeQuote? q s generalizing body rest with
  | case1 => cases h
  | case2 => cases h; rfl
  | case3 => cases h
  | case4 => cases h; rename_i hs ih; exact ih hs
  | case5 s hs ih =>
    cases h
    simpa [runsOn] using closeQuote?_eq_none_iff.1 hs
  | case6 d s hd => cases h; simp [runsOn, hd]
  | case7 => cases h; rename_i hs ih; exact ih hs
  | case8 => cases h

theorem quotedBody_double (q : Char) (s : Text) : QuotedBody q (Text.double q s ++ [q]) := by
  induction s with
  | nil => exact .close
  | cons c s ih =>
    unfold Text.double at ih ⊢
    rw [List.flatMap_cons]
    by_cases hc : c = q
    · subst hc
      rw [if_pos rfl]
      exact .pair ih
    · rw [if_neg hc]
      exact .other hc ih

/-- What follows an opening quote is a text with its quotes doubled, and the closing
one. -/
theorem QuotedBody.eq_double {q : Char} {b : Text} (h : QuotedBody q b) : ∃ n, b = Text.double q n ++ [q] := by
  induction h with
  | close => exact ⟨[], rfl⟩
  | pair h ih =>
    obtain ⟨n, rfl⟩ := ih
    exact ⟨q :: n, by simp [Text.double]⟩
  | @other c b hc h ih =>
    obtain ⟨n, rfl⟩ := ih
    exact ⟨c :: n, by simp [Text.double, hc]⟩

/-- The quotes around a name, opening and closing. -/
def NameQuotes (o q : Char) : Prop := (o = '`' ∧ q = '`') ∨ (o = '"' ∧ q = '"') ∨ (o = '[' ∧ q = ']')

theorem closerOf_eq_some_iff {c q : Char} :
    Text.closerOf c = some q ↔ (c = '\'' ∧ q = '\'') ∨ NameQuotes c q := by
  constructor
  · intro h
    unfold Text.closerOf at h
    split at h
    · rename_i hc
      cases h
      simp only [Bool.or_eq_true, decide_eq_true_eq] at hc
      rcases hc with (rfl | rfl) | rfl
      · exact .inl ⟨rfl, rfl⟩
      · exact .inr (.inr (.inl ⟨rfl, rfl⟩))
      · exact .inr (.inl ⟨rfl, rfl⟩)
    · split at h
      · cases h
        exact .inr (.inr (.inr ⟨‹_›, rfl⟩))
      · cases h
  · rintro (⟨rfl, rfl⟩ | ⟨rfl, rfl⟩ | ⟨rfl, rfl⟩ | ⟨rfl, rfl⟩) <;> rfl

theorem isSeparator_closer {c q : Char} (h : Text.closerOf c = some q) : isSeparator q = false := by
  rcases closerOf_eq_some_iff.1 h with ⟨rfl, rfl⟩ | ⟨rfl, rfl⟩ | ⟨rfl, rfl⟩ | ⟨rfl, rfl⟩ <;> decide

theorem Thinned.runsOn {q : Char} (hq : isSeparator q = false) {r r' : Text} (ht : Thinned r r')
    (h : runsOn q r = false) : runsOn q r' = false := by
  cases ht with
  | stop => rfl
  | @keep c r r' ht =>
    by_cases hc : c = q
    · have hnot : q ∉ r := by simpa [TableDialects.runsOn, hc] using h
      simpa [TableDialects.runsOn, hc] using ht.not_mem hq hnot
    · simp [TableDialects.runsOn, hc]
  | gap hsep g ht => exact runsOn_of_stops (stops_cons.2 (beq_eq_false_iff_ne.2 (ne_of_isSeparator hsep hq)))

theorem closeQuote?_thinned {q : Char} (hq : isSeparator q = false) {s body rest rest' : Text}
    (h : Text.closeQuote? q s = some (body, rest)) (ht : Thinned rest rest') :
    Text.closeQuote? q (body ++ rest') = some (body, rest') :=
  (quotedBody_of_closeQuote? h).closeQuote? (ht.runsOn hq (runsOn_of_closeQuote? h))

/-! ## The rules -/

/-- The text is read as a token of the kind in front of `r`. -/
inductive TokenRule (r : Text) : TokenKind → Text → Prop
  | string {lead n : Text} (hlead : lead = [] ∨ lead = ['N'] ∨ lead = ['n'])
    (hr : runsOn '\'' r = false) : TokenRule r .string (lead ++ '\'' :: (Text.double '\'' n ++ ['\'']))
  | ident {o q : Char} {n : Text} (ho : NameQuotes o q) (hr : runsOn q r = false) :
    TokenRule r .ident (o :: (Text.double q n ++ [q]))
  | number {v : Text} (h : ReadsNumber v r) : TokenRule r .number v
  | word {c : Char} {w : Text} (hc : startsWord c = true) (hw : ∀ d ∈ w, continuesWord d = true)
    (hr : Stops continuesWord r) (hn : c :: w = ['N'] ∨ c :: w = ['n'] → runsOn '\'' r = false) :
    TokenRule r .word (c :: w)
  | punct {c : Char} (hc : isMark c = true) (hr : c = '.' → Stops Text.isDigit r) : TokenRule r .punct [c]
  | pair {c d : Char} (h : isPair c d = true) : TokenRule r .op [c, d]
  | op {c : Char} (hblank : Text.isBlank c = false) (hdigit : Text.isDigit c = false)
    (hword : startsWord c = false) (hmark : isMark c = false) (hpair : Stops (isPair c) r)
    (hquote : ∀ q, Text.closerOf c = some q → q ∉ r) (hcomment : comment? (c :: r) = none) :
    TokenRule r .op [c]

/-! ## What is read obeys the rules -/

theorem quote?_kind {kind : TokenKind} {lead s : Text} {q : Char} {p : Piece}
    (h : quote? kind lead q s = some p) : p.kind = .token kind := by
  unfold quote? at h
  split at h
  · cases h; rfl
  · cases h

theorem string?_kind {s : Text} {p : Piece} (h : string? s = some p) : p.kind = .token .string := by
  unfold string? at h
  split at h
  · exact quote?_kind h
  · split at h
    · exact quote?_kind h
    · cases h
  · cases h

theorem ident?_kind {s : Text} {p : Piece} (h : ident? s = some p) : p.kind = .token .ident := by
  unfold ident? at h
  split at h
  · exact quote?_kind h
  · exact quote?_kind h
  · exact quote?_kind h
  · cases h

theorem quote?_eq_some {kind : TokenKind} {lead s : Text} {q : Char} {p : Piece}
    (h : quote? kind lead q s = some p) :
    ∃ n, p.text = lead ++ (Text.double q n ++ [q]) ∧ runsOn q p.rest = false := by
  unfold quote? at h
  split at h
  · rename_i body rest hclose
    cases h
    obtain ⟨n, rfl⟩ := (quotedBody_of_closeQuote? hclose).eq_double
    exact ⟨n, rfl, runsOn_of_closeQuote? hclose⟩
  · cases h

theorem tokenRule_string {c : Char} {s v r : Text} {k : TokenKind}
    (h : string? (c :: s) = some ⟨.token k, v, r⟩) : TokenRule r k v := by
  cases string?_kind h
  unfold string? at h
  split at h
  · obtain ⟨n, htext, hr⟩ := quote?_eq_some h
    cases htext
    exact .string (.inl rfl) hr
  · rename_i d t _ _
    split at h
    · rename_i hn
      obtain ⟨n, htext, hr⟩ := quote?_eq_some h
      cases htext
      rw [Bool.or_eq_true, beq_iff_eq, beq_iff_eq] at hn
      show TokenRule r .string ([d] ++ '\'' :: (Text.double '\'' n ++ ['\'']))
      exact .string (.inr (hn.imp (congrArg ([·])) (congrArg ([·])))) hr
    · cases h
  · cases h

theorem tokenRule_ident {c : Char} {s v r : Text} {k : TokenKind}
    (h : ident? (c :: s) = some ⟨.token k, v, r⟩) : TokenRule r k v := by
  cases ident?_kind h
  have hrule : ∀ {o q : Char} {s : Text}, NameQuotes o q →
      quote? .ident [o] q s = some ⟨.token .ident, v, r⟩ → TokenRule r .ident v := by
    intro o q s ho h
    obtain ⟨n, htext, hr⟩ := quote?_eq_some h
    cases htext
    exact .ident ho hr
  unfold ident? at h
  split at h
  · exact hrule (.inl ⟨rfl, rfl⟩) h
  · exact hrule (.inr (.inl ⟨rfl, rfl⟩)) h
  · exact hrule (.inr (.inr ⟨rfl, rfl⟩)) h
  · cases h

/-- A single N before a quote is a word only if the quote is never closed. -/
theorem runsOn_of_string?_eq_none {c : Char} {r : Text} (hc : c = 'N' ∨ c = 'n')
    (h : string? (c :: r) = none) : runsOn '\'' r = false := by
  cases r with
  | nil => rfl
  | cons d r =>
    by_cases hd : d = '\''
    · subst hd
      have hne : c ≠ '\'' := by rcases hc with rfl | rfl <;> decide
      have hn : (c == 'N' || c == 'n') = true := by rcases hc with rfl | rfl <;> rfl
      rw [string?_prefixed hne, if_pos hn, quote?_eq_none_iff] at h
      simpa [runsOn] using h
    · simp [runsOn, hd]

theorem closer_not_mem {c : Char} {r : Text} (hstring : string? (c :: r) = none) (hident : ident? (c :: r) = none) :
    ∀ q, Text.closerOf c = some q → q ∉ r := by
  intro q hq
  rcases closerOf_eq_some_iff.1 hq with ⟨rfl, rfl⟩ | ⟨rfl, rfl⟩ | ⟨rfl, rfl⟩ | ⟨rfl, rfl⟩
  · exact quote?_eq_none_iff.1 hstring
  · exact quote?_eq_none_iff.1 hident
  · exact quote?_eq_none_iff.1 hident
  · exact quote?_eq_none_iff.1 hident

theorem tokenRule_mark {c : Char} {w r : Text} {k : TokenKind} (hblank : Text.isBlank c = false)
    (hcomment : comment? (c :: (w ++ r)) = none) (hstring : string? (c :: (w ++ r)) = none)
    (hident : ident? (c :: (w ++ r)) = none) (hnumber : number? (c :: (w ++ r)) = none)
    (hword : word? (c :: (w ++ r)) = none) (h : mark c (w ++ r) = ⟨.token k, c :: w, r⟩) :
    TokenRule r k (c :: w) := by
  obtain ⟨hdigit, hpoint⟩ := number?_eq_none hnumber
  by_cases hc : isMark c = true
  · rw [mark_of_isMark hc] at h
    cases w with
    | nil =>
      cases h
      exact .punct hc fun heq => hpoint r (by rw [heq]; rfl)
    | cons d w => cases h
  · rw [Bool.not_eq_true] at hc
    by_cases hs : Stops (isPair c) (w ++ r)
    · rw [mark_of_stops hc hs] at h
      cases w with
      | nil =>
        cases h
        have hstart : startsWord c = false := by
          cases hstart : startsWord c with
          | false => rfl
          | true =>
            rw [word?, if_pos hstart] at hword
            cases hword
        exact .op hblank (stops_cons.1 hdigit) hstart hc hs (closer_not_mem hstring hident) hcomment
      | cons d w => cases h
    · cases hw : w ++ r with
      | nil => exact absurd (hw ▸ stops_nil (isPair c)) hs
      | cons d s =>
        rw [hw, stops_cons, Bool.not_eq_false] at hs
        rw [hw, mark_of_isPair hc hs] at h
        obtain ⟨hk, hv, -⟩ := Piece.mk.inj h
        cases hk
        cases hv
        exact .pair hs

theorem ReadsToken.rule {k : TokenKind} {v r : Text} (h : ReadsToken k v r) : TokenRule r k v := by
  have hblank := h.stops_blank r
  obtain ⟨c, w, rfl, hp⟩ := h
  rw [List.cons_append, stops_cons] at hblank
  -- One case for each kind of piece, in the order in which they are tried.
  unfold piece at hp
  rw [space?_eq_none.2 hblank] at hp
  dsimp only at hp
  split at hp
  · subst hp
    cases comment?_gap ‹_›
  rename_i hcomment
  split at hp
  · subst hp
    exact tokenRule_string ‹_›
  rename_i hstring
  split at hp
  · subst hp
    exact tokenRule_ident ‹_›
  rename_i hident
  split at hp
  · obtain ⟨v, r', -, hnumber, rfl⟩ := number?_eq_some ‹_›
    cases hp
    exact .number hnumber
  rename_i hnumber
  split at hp
  · obtain ⟨d, v, r', -, hd, hv, hr, rfl⟩ := word?_eq_some ‹_›
    cases hp
    refine .word hd hv hr ?_
    rintro (heq | heq) <;> cases heq
    · exact runsOn_of_string?_eq_none (.inl rfl) hstring
    · exact runsOn_of_string?_eq_none (.inr rfl) hstring
  · exact tokenRule_mark hblank hcomment hstring hident hnumber ‹_› hp

/-! ## What obeys the rules is read -/

theorem comment?_other {c : Char} (s : Text) (hd : c ≠ '-') (hs : c ≠ '/') :
    comment? (c :: s) = none := by
  cases s with
  | nil => exact comment?_single c
  | cons e s => rw [comment?_cons, if_neg fun h => hd h.1, if_neg fun h => hs h.1]

theorem string?_unprefixed {c : Char} (s : Text) (hq : c ≠ '\'') (hn : c ≠ 'N') (hn' : c ≠ 'n') :
    string? (c :: s) = none := by
  cases s with
  | nil => exact string?_other hq (stops_nil _)
  | cons d s =>
    by_cases hd : d = '\''
    · subst hd
      rw [string?_prefixed hq]
      simp [hn, hn']
    · exact string?_other hq (stops_cons.2 (by simpa using hd))

theorem ident?_eq_none {c : Char} {r : Text} (h : ∀ q, Text.closerOf c = some q → q ∉ r) :
    ident? (c :: r) = none := by
  rw [ident?_cons]
  split
  · rename_i hc
    subst hc
    exact quote?_eq_none_iff.2 (h _ rfl)
  split
  · rename_i hc
    subst hc
    exact quote?_eq_none_iff.2 (h _ rfl)
  split
  · rename_i hc
    subst hc
    exact quote?_eq_none_iff.2 (h _ rfl)
  · rfl

theorem number?_other {c : Char} {s : Text} (hd : Text.isDigit c = false)
    (hp : c = '.' → Stops Text.isDigit s) : number? (c :: s) = none := by
  unfold number?
  rw [mantissaLength_eq_zero (stops_cons.2 hd) fun t ht => (List.cons.inj ht).2 ▸ hp (List.cons.inj ht).1]
  rfl

theorem readsToken_string {lead body r : Text} (hlead : lead = [] ∨ lead = ['N'] ∨ lead = ['n'])
    (hbody : QuotedBody '\'' body) (hr : runsOn '\'' r = false) :
    ReadsToken .string (lead ++ '\'' :: body) r := by
  have hclose := hbody.closeQuote? hr
  have hpiece : ∀ {c : Char} {s : Text}, Text.isBlank c = false → c ≠ '-' → c ≠ '/' →
      string? (c :: s) = some ⟨.token .string, lead ++ '\'' :: body, r⟩ →
      piece c s = ⟨.token .string, lead ++ '\'' :: body, r⟩ := by
    intro c s hb hm hsl hs
    unfold piece
    rw [space?_eq_none.2 hb, comment?_other s hm hsl, hs]
  rcases hlead with rfl | rfl | rfl
  · refine ⟨'\'', body, rfl, hpiece (by decide) (by decide) (by decide) ?_⟩
    show quote? .string ['\''] '\'' (body ++ r) = _
    rw [quote?, hclose]
    rfl
  · refine ⟨'N', '\'' :: body, rfl, hpiece (by decide) (by decide) (by decide) ?_⟩
    rw [List.cons_append, string?_prefixed (by decide), quote?, hclose]
    rfl
  · refine ⟨'n', '\'' :: body, rfl, hpiece (by decide) (by decide) (by decide) ?_⟩
    rw [List.cons_append, string?_prefixed (by decide), quote?, hclose]
    rfl

/-- A name in quotes is read in front of every text in which it does not go on. -/
theorem readsToken_ident {o q : Char} {body r : Text} (ho : NameQuotes o q) (hbody : QuotedBody q body)
    (hr : runsOn q r = false) : ReadsToken .ident (o :: body) r := by
  have hident : ident? (o :: (body ++ r)) = some ⟨.token .ident, o :: body, r⟩ := by
    have hopen : ident? (o :: (body ++ r)) = quote? .ident [o] q (body ++ r) := by
      rcases ho with ⟨rfl, rfl⟩ | ⟨rfl, rfl⟩ | ⟨rfl, rfl⟩ <;> rfl
    rw [hopen, quote?, hbody.closeQuote? hr]
    rfl
  have hstart : Text.isBlank o = false ∧ o ≠ '-' ∧ o ≠ '/' ∧ o ≠ '\'' ∧ o ≠ 'N' ∧ o ≠ 'n' := by
    rcases ho with ⟨rfl, -⟩ | ⟨rfl, -⟩ | ⟨rfl, -⟩ <;> decide
  obtain ⟨hb, hm, hsl, hq, hn, hn'⟩ := hstart
  refine ⟨o, body, rfl, ?_⟩
  unfold piece
  rw [space?_eq_none.2 hb, comment?_other _ hm hsl, string?_unprefixed _ hq hn hn', hident]

theorem ReadsNumber.head {v r : Text} (h : ReadsNumber v r) :
    ∃ c w, v = c :: w ∧ (Text.isDigit c = true ∨ c = '.') := by
  have hmantissa : ∀ {m : Text}, IsMantissa m →
      ∃ c w, m = c :: w ∧ (Text.isDigit c = true ∨ c = '.') := by
    intro m hm
    cases hm with
    | whole hne hd =>
      cases m with
      | nil => exact absurd rfl hne
      | cons c m => exact ⟨c, m, rfl, .inl (hd c List.mem_cons_self)⟩
    | @point ds es hne hd he =>
      cases ds with
      | nil => exact ⟨'.', es, rfl, .inr rfl⟩
      | cons c ds => exact ⟨c, _, rfl, .inl (hd c List.mem_cons_self)⟩
  cases h with
  | plain hv => exact hmantissa hv
  | scaled hv =>
    obtain ⟨c, w, rfl, hc⟩ := hmantissa hv
    exact ⟨c, _, rfl, hc⟩

theorem readsToken_number {v r : Text} (h : ReadsNumber v r) : ReadsToken .number v r := by
  have hnumber := h.number?
  obtain ⟨c, w, rfl, hc⟩ := ReadsNumber.head h
  -- A digit is none of the characters that start a gap or a quoted text.
  have hne : ∀ {d : Char}, Text.isDigit d = false → d ≠ '.' → c ≠ d := by
    rintro d hd hp rfl
    rcases hc with hc | hc
    · rw [hc] at hd
      cases hd
    · exact hp hc
  have hb : Text.isBlank c = false := by
    cases hblank : Text.isBlank c with
    | false => rfl
    | true =>
      rcases hc with hc | rfl
      · rw [Text.isDigit_of_isBlank hblank] at hc
        cases hc
      · cases hblank
  refine ⟨c, w, rfl, ?_⟩
  have hident : ident? (c :: (w ++ r)) = none := by
    rw [ident?_cons, if_neg (hne (by decide) (by decide)), if_neg (hne (by decide) (by decide)),
      if_neg (hne (by decide) (by decide))]
  unfold piece
  rw [space?_eq_none.2 hb, comment?_other _ (hne (by decide) (by decide)) (hne (by decide) (by decide)),
    string?_unprefixed _ (hne (by decide) (by decide)) (hne (by decide) (by decide))
      (hne (by decide) (by decide)), hident]
  rw [List.cons_append] at hnumber
  rw [hnumber]

/-- The characters that start words start neither a gap nor a quoted text nor a
number. -/
theorem facts_of_startsWord {c : Char} (h : startsWord c = true) : c ≠ '\'' ∧ Text.isBlank c = false ∧
    c ≠ '-' ∧ c ≠ '/' ∧ Text.closerOf c = none ∧ Text.isDigit c = false ∧ c ≠ '.' := by
  have hlow : c.toNat < 128 := by
    simp only [startsWord, Text.isAsciiLetter, Bool.or_eq_true, Bool.and_eq_true, decide_eq_true_eq,
      beq_iff_eq] at h
    rcases h with ((h | rfl) | rfl) | rfl
    · omega
    · decide
    · decide
    · decide
  exact Text.of_ascii (p := fun c => startsWord c = true → c ≠ '\'' ∧ Text.isBlank c = false ∧
    c ≠ '-' ∧ c ≠ '/' ∧ Text.closerOf c = none ∧ Text.isDigit c = false ∧ c ≠ '.') (by decide +kernel) hlow h

theorem string?_of_word {c : Char} {w r : Text} (hc : startsWord c = true) (hw : ∀ d ∈ w, continuesWord d = true)
    (hn : c :: w = ['N'] ∨ c :: w = ['n'] → runsOn '\'' r = false) : string? (c :: (w ++ r)) = none := by
  obtain ⟨hquote, -⟩ := facts_of_startsWord hc
  cases w with
  | nil =>
    by_cases hN : c = 'N' ∨ c = 'n'
    · have hr := hn (hN.imp (congrArg ([·])) (congrArg ([·])))
      cases r with
      | nil => exact string?_other hquote (stops_nil _)
      | cons d r =>
        by_cases hd : d = '\''
        · subst hd
          have hnone : '\'' ∉ r := by simpa [runsOn] using hr
          rw [List.nil_append, string?_prefixed hquote]
          split
          · exact quote?_eq_none_iff.2 hnone
          · rfl
        · exact string?_other hquote (stops_cons.2 (by simpa using hd))
    · rw [not_or] at hN
      exact string?_unprefixed _ hquote hN.1 hN.2
  | cons d w =>
    refine string?_other hquote (stops_cons.2 ?_)
    rw [beq_eq_false_iff_ne]
    rintro rfl
    exact absurd (hw _ List.mem_cons_self) (by decide)

theorem readsToken_word {c : Char} {w r : Text} (hc : startsWord c = true)
    (hw : ∀ d ∈ w, continuesWord d = true) (hr : Stops continuesWord r)
    (hn : c :: w = ['N'] ∨ c :: w = ['n'] → runsOn '\'' r = false) : ReadsToken .word (c :: w) r := by
  obtain ⟨-, hblank, hm, hsl, hcloser, hd, hp⟩ := facts_of_startsWord hc
  refine ⟨c, w, rfl, ?_⟩
  unfold piece
  rw [space?_eq_none.2 hblank, comment?_other _ hm hsl, string?_of_word hc hw hn,
    ident?_eq_none (by simp [hcloser]), number?_other hd fun h => absurd h hp, word?_append hc hw hr]

/-- The piece at a character that starts no gap, no quoted text, no number and no
word. -/
theorem piece_mark {c : Char} {s : Text} (hblank : Text.isBlank c = false) (hdigit : Text.isDigit c = false)
    (hword : startsWord c = false) (hpoint : c = '.' → Stops Text.isDigit s)
    (hquote : ∀ q, Text.closerOf c = some q → q ∉ s) (hcomment : comment? (c :: s) = none) :
    piece c s = mark c s := by
  have hne : ∀ {d : Char}, startsWord d = true → c ≠ d := by
    rintro d hd rfl
    rw [hd] at hword
    cases hword
  have hstring : string? (c :: s) = none := by
    by_cases hc : c = '\''
    · subst hc
      exact quote?_eq_none_iff.2 (hquote _ rfl)
    · exact string?_unprefixed _ hc (hne (by decide)) (hne (by decide))
  unfold piece
  rw [space?_eq_none.2 hblank, hcomment, hstring, ident?_eq_none hquote, number?_other hdigit hpoint, word?,
    hword]
  rfl

/-- A mark, and a dot before anything but a digit, with which it would start a
number. -/
theorem readsToken_punct {c : Char} {r : Text} (hc : isMark c = true) (hr : c = '.' → Stops Text.isDigit r) :
    ReadsToken .punct [c] r := by
  have hfacts : Text.isBlank c = false ∧ Text.isDigit c = false ∧ startsWord c = false ∧
      Text.closerOf c = none ∧ c ≠ '-' ∧ c ≠ '/' := by
    simp only [isMark, Bool.or_eq_true, beq_iff_eq] at hc
    rcases hc with (((rfl | rfl) | rfl) | rfl) | rfl <;> decide
  obtain ⟨hblank, hdigit, hword, hcloser, hm, hsl⟩ := hfacts
  refine ⟨c, [], rfl, ?_⟩
  rw [List.nil_append, piece_mark hblank hdigit hword hr (by simp [hcloser]) (comment?_other _ hm hsl)]
  exact mark_of_isMark hc r

theorem readsToken_pair {c d : Char} (h : isPair c d = true) (r : Text) : ReadsToken .op [c, d] r := by
  have hfacts : Text.isBlank c = false ∧ Text.isDigit c = false ∧ startsWord c = false ∧
      Text.closerOf c = none ∧ c ≠ '-' ∧ c ≠ '/' ∧ c ≠ '.' ∧ isMark c = false := by
    simp only [isPair, Bool.or_eq_true, Bool.and_eq_true, beq_iff_eq] at h
    rcases h with ((((⟨rfl, -⟩ | ⟨rfl, -⟩) | ⟨rfl, -⟩) | ⟨rfl, -⟩) | ⟨rfl, -⟩) | ⟨rfl, -⟩ <;> decide
  obtain ⟨hblank, hdigit, hword, hcloser, hm, hsl, hp, hmark⟩ := hfacts
  refine ⟨c, [d], rfl, ?_⟩
  rw [piece_mark hblank hdigit hword (fun h => absurd h hp) (by simp [hcloser]) (comment?_other _ hm hsl)]
  exact mark_of_isPair hmark h r

theorem readsToken_op {c : Char} {r : Text} (hblank : Text.isBlank c = false) (hdigit : Text.isDigit c = false)
    (hword : startsWord c = false) (hmark : isMark c = false) (hpair : Stops (isPair c) r)
    (hquote : ∀ q, Text.closerOf c = some q → q ∉ r) (hcomment : comment? (c :: r) = none) :
    ReadsToken .op [c] r := by
  have hpoint : c ≠ '.' := by
    rintro rfl
    cases hmark
  refine ⟨c, [], rfl, ?_⟩
  rw [List.nil_append, piece_mark hblank hdigit hword (fun h => absurd h hpoint) hquote hcomment]
  exact mark_of_stops hmark hpair

theorem TokenRule.reads {k : TokenKind} {v r : Text} (h : TokenRule r k v) : ReadsToken k v r := by
  cases h with
  | string hlead hr => exact readsToken_string hlead (quotedBody_double _ _) hr
  | ident ho hr => exact readsToken_ident ho (quotedBody_double _ _) hr
  | number h => exact readsToken_number h
  | word hc hw hr hn => exact readsToken_word hc hw hr hn
  | punct hc hr => exact readsToken_punct hc hr
  | pair h => exact readsToken_pair h r
  | op hblank hdigit hword hmark hpair hquote hcomment =>
    exact readsToken_op hblank hdigit hword hmark hpair hquote hcomment

/-- The scanner reads a token in front of a text exactly if the rule of its kind says
so. -/
theorem readsToken_iff {k : TokenKind} {v r : Text} : ReadsToken k v r ↔ TokenRule r k v :=
  ⟨ReadsToken.rule, TokenRule.reads⟩

/-! ## Thinned text -/

theorem TokenRule.thinned {k : TokenKind} {v r r' : Text} (h : TokenRule r k v) (ht : Thinned r r') :
    TokenRule r' k v := by
  cases h with
  | string hlead hr => exact .string hlead (ht.runsOn (by decide) hr)
  | ident ho hr => exact .ident ho (ht.runsOn (isSeparator_closer (closerOf_eq_some_iff.2 (.inr ho))) hr)
  | number h => exact .number (h.thinned ht)
  | word hc hw hr hn =>
    exact .word hc hw (ht.stops (fun _ => continuesWord_of_isSeparator) hr) fun h => ht.runsOn (by decide) (hn h)
  | punct hc hr => exact .punct hc fun h => ht.stops (fun _ => isDigit_of_isSeparator) (hr h)
  | pair h => exact .pair h
  | @op c hblank hdigit hword hmark hpair hquote hcomment =>
    exact .op hblank hdigit hword hmark (ht.stops (fun _ => isPair_of_isSeparator c) hpair)
      (fun q hq => ht.not_mem (isSeparator_closer hq) (hquote q hq)) (comment?_thinned hcomment ht)

theorem ReadsToken.thinned {k : TokenKind} {v r r' : Text} (h : ReadsToken k v r) (ht : Thinned r r') :
    ReadsToken k v r' :=
  (h.rule.thinned ht).reads

end TableDialects
