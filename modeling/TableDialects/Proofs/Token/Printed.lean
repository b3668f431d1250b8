import TableDialects.Cleanup.Layout
import TableDialects.Proofs.Text.Classes
import TableDialects.Proofs.Token.Quoted

/- Tokens that are written by the library itself: keywords, names in the quotes
   of a dialect, literals and marks. Such a token is read as itself in front of
   every text that cannot go on with it (`Token.Printed.reads`), so that lines of
   them, with blanks where tokens would run together, are read as the tokens
   they were written from (`shapes_tokenize_linesText`). -/
namespace TableDialects

open Scan

/-! ## Texts of tokens -/

/-- Whether the character may stand in a keyword: an ASCII letter or digit or a
low line. -/
def isPlainChar (c : Char) : Bool := Text.isAsciiLetter c || Text.isAsciiDigit c || c == '_'

/-- Whether the text is a keyword: plain characters, the first one no digit. -/
def isKeyword (w : Text) : Bool :=
  !w.isEmpty && w.all isPlainChar && w.head?.all fun c => !Text.isAsciiDigit c

/-- Whether the character may stand in a name. Beside the plain ones this is the
number sign, which marks temporary tables. -/
def isNameChar (c : Char) : Bool := isPlainChar c || c == '#'

/-- Whether the text is a name that needs no doubled quotes: name characters, the
first one no digit. -/
def isPlainName (n : Text) : Bool :=
  !n.isEmpty && n.all isNameChar && n.head?.all fun c => !Text.isAsciiDigit c

/-- A string literal in one line: quoted text, possibly behind N. -/
structure IsLiteral (v : Text) : Prop where
  parts : ∃ lead body, v = lead ++ '\'' :: body ∧ (lead = [] ∨ lead = ['N'] ∨ lead = ['n']) ∧
    QuotedBody '\'' body
  oneLine : ∀ c ∈ v, c ≠ '\n' ∧ c ≠ '\r'

def breakChars : List Char := [' ', '\n', '(', ')', ',', ';', '=']

def isBreak (c : Char) : Bool := breakChars.contains c

/-- The text starts with a character before which every token ends, or is
empty. -/
def Breaks (r : Text) : Prop := ∀ c ∈ r.head?, isBreak c = true

theorem breaks_nil : Breaks [] := by
  intro c hc
  cases hc

theorem breaks_cons {c : Char} {r : Text} : Breaks (c :: r) ↔ isBreak c = true := by
  constructor
  · intro h
    exact h c rfl
  · intro h d hd
    cases hd
    exact h

theorem Breaks.stops {p : Char → Bool} (hp : ∀ c, isBreak c = true → p c = false) {r : Text}
    (hr : Breaks r) : Stops p r := fun c hc => hp c (hr c hc)

/-- A statement about breaks is settled by trying all of them. -/
theorem of_isBreak {p : Char → Prop} (h : ∀ c ∈ breakChars, p c) {c : Char}
    (hc : isBreak c = true) : p c := h c (List.contains_iff_mem.1 hc)

theorem continuesWord_of_isBreak {c : Char} (h : isBreak c = true) : continuesWord c = false :=
  of_isBreak (p := fun c => continuesWord c = false) (by decide) h

theorem isDigit_of_isBreak {c : Char} (h : isBreak c = true) : Text.isDigit c = false :=
  of_isBreak (p := fun c => Text.isDigit c = false) (by decide) h

theorem ne_of_isBreak {d : Char} (hd : isBreak d = false) {c : Char} (h : isBreak c = true) :
    (c == d) = false := by
  rw [beq_eq_false_iff_ne]
  rintro rfl
  rw [hd] at h
  cases h

theorem isPlainChar_ascii {c : Char} (h : isPlainChar c = true) : c.toNat < 128 := by
  simp only [isPlainChar, Text.isAsciiLetter, Text.isAsciiDigit, Bool.or_eq_true, Bool.and_eq_true,
    decide_eq_true_eq, beq_iff_eq] at h
  rcases h with (h | h) | rfl
  · omega
  · omega
  · decide

theorem isNameChar_ascii {c : Char} (h : isNameChar c = true) : c.toNat < 128 := by
  simp only [isNameChar, Bool.or_eq_true, beq_iff_eq] at h
  rcases h with h | rfl
  · exact isPlainChar_ascii h
  · decide

/-- A statement about name characters is settled by trying all of them. -/
theorem of_isNameChar {p : Char → Prop}
    (h : ∀ n < 128, isNameChar (Char.ofNat n) = true → p (Char.ofNat n)) {c : Char}
    (hc : isNameChar c = true) : p c :=
  Text.of_ascii (p := fun c => isNameChar c = true → p c) h (isNameChar_ascii hc) hc

theorem isNameChar_of_isPlainChar {c : Char} (h : isPlainChar c = true) : isNameChar c = true := by
  rw [isNameChar, h]
  rfl

theorem isKeyword_cons {c : Char} {w : Text} (h : isKeyword (c :: w) = true) :
    (∀ d ∈ c :: w, isPlainChar d = true) ∧ Text.isAsciiDigit c = false := by
  simp only [isKeyword, List.isEmpty_cons, Bool.not_false, Bool.true_and, List.head?_cons,
    Option.all_some, Bool.and_eq_true, Bool.not_eq_true', List.all_eq_true] at h
  exact h

theorem isPlainName_cons {c : Char} {n : Text} :
    isPlainName (c :: n) = true ↔ (∀ d ∈ c :: n, isNameChar d = true) ∧ Text.isAsciiDigit c = false := by
  simp only [isPlainName, List.isEmpty_cons, Bool.not_false, Bool.true_and, List.head?_cons,
    Option.all_some, Bool.and_eq_true, Bool.not_eq_true', List.all_eq_true]

theorem chars_of_isPlainName {n : Text} (h : isPlainName n = true) : ∀ c ∈ n, isNameChar c = true := by
  cases n with
  | nil => cases h
  | cons c n => exact (isPlainName_cons.1 h).1

theorem transports_of_isPlainName (d : Dialect) {n : Text} (h : isPlainName n = true) :
    d.transports n = true := by
  have hedge : ∀ {c : Char}, isNameChar c = true → Dialect.isEdge c = true :=
    of_isNameChar (p := fun c => Dialect.isEdge c = true) (by decide +kernel)
  cases n with
  | nil => cases h
  | cons c n =>
    obtain ⟨hchars, hfirst⟩ := isPlainName_cons.1 h
    have hdigit : Text.isDigit c = false :=
      Text.of_ascii (p := fun c => isNameChar c = true → Text.isAsciiDigit c = false → Text.isDigit c = false)
        (by decide +kernel) (isNameChar_ascii (hchars c List.mem_cons_self)) (hchars c List.mem_cons_self) hfirst
    have hlast := List.getLast?_eq_some_getLast (List.cons_ne_nil c n)
    rw [Dialect.transports, hlast, List.all_cons, hdigit]
    simp [hedge (hchars c List.mem_cons_self), hedge (hchars _ (List.getLast_mem (List.cons_ne_nil c n)))]

/-- A name in quotes: the characters around it, and nothing doubled inside. -/
theorem quote_plainName (d : Dialect) {n : Text} (h : isPlainName n = true) :
    d.quote n = d.profile.quoteOpen :: (n ++ [d.profile.quoteClose]) ∧
      d.profile.quoteClose ∉ n := by
  have hclose : isNameChar d.profile.quoteClose = false := by cases d <;> decide
  have hnot : d.profile.quoteClose ∉ n := by
    intro hin
    rw [chars_of_isPlainName h _ hin] at hclose
    cases hclose
  refine ⟨?_, hnot⟩
  rw [quote_eq, (Dialect.transports_iff.1 (transports_of_isPlainName d h)).2.1, double_of_not_mem hnot]

/-! ## Reading one token -/

theorem facts_of_isPlainChar {c : Char} (h : isPlainChar c = true) : continuesWord c = true ∧
    Text.isBlank c = false ∧ c ≠ '-' ∧ (Text.isAsciiDigit c = false → startsWord c = true) :=
  Text.of_ascii (p := fun c => isPlainChar c = true → continuesWord c = true ∧
    Text.isBlank c = false ∧ c ≠ '-' ∧ (Text.isAsciiDigit c = false → startsWord c = true))
    (by decide +kernel) (isPlainChar_ascii h) h

theorem readsToken_keyword {w r : Text} (h : isKeyword w = true) (hr : Breaks r) :
    ReadsToken .word w r := by
  cases w with
  | nil => cases h
  | cons c w =>
    obtain ⟨hall, hdigit⟩ := isKeyword_cons h
    obtain ⟨-, -, -, hstart⟩ := facts_of_isPlainChar (hall c List.mem_cons_self)
    refine readsToken_word (hstart hdigit) ?_ (hr.stops fun _ => continuesWord_of_isBreak) ?_
    · exact fun d hd => (facts_of_isPlainChar (hall d (List.mem_cons_of_mem c hd))).1
    · exact fun _ => runsOn_of_stops (hr.stops fun c hc => ne_of_isBreak (by decide) hc)

theorem ReadsNumber.chars {v r : Text} (h : ReadsNumber v r) :
    ∀ c ∈ v, Text.isDigit c = true ∨ c ∈ ['.', '+', '-', 'e', 'E'] := by
  have hmantissa : ∀ {m : Text}, IsMantissa m →
      ∀ c ∈ m, Text.isDigit c = true ∨ c ∈ ['.', '+', '-', 'e', 'E'] := by
    intro m hm c hc
    cases hm with
    | whole hne hd => exact .inl (hd c hc)
    | point hne hd he =>
      rcases List.mem_append.1 hc with hc | hc
      · exact .inl (hd c hc)
      · rcases List.mem_cons.1 hc with rfl | hc
        · exact .inr (by decide)
        · exact .inl (he c hc)
  have hlead : ∀ {lead : Text}, IsExponentLead lead →
      ∀ c ∈ lead, c ∈ ['.', '+', '-', 'e', 'E'] := by
    rintro _ ⟨e, rfl | rfl, rfl | rfl | rfl⟩ <;> decide
  intro c hc
  cases h with
  | plain hv => exact hmantissa hv c hc
  | scaled hv hl hne hd =>
    rcases List.mem_append.1 hc with hc | hc
    · exact hmantissa hv c hc
    · rcases List.mem_append.1 hc with hc | hc
      · exact .inr (hlead hl c hc)
      · exact .inl (hd c hc)

theorem exponentLength_eq_zero {r : Text} (h : Stops (fun c => c == 'e' || c == 'E') r) :
    exponentLength r = 0 := by
  match r with
  | [] => rfl
  | [c] => rfl
  | [c, d] =>
    have hc : (c == 'e' || c == 'E') = false := stops_cons.1 h
    simp [exponentLength, hc]
  | c :: d :: e :: r =>
    have hc : (c == 'e' || c == 'E') = false := stops_cons.1 h
    simp [exponentLength, hc]

/-- A number that is read at the end of a text is read before every break. -/
theorem ReadsNumber.before_break {v r : Text} (h : ReadsNumber v []) (hr : Breaks r) :
    ReadsNumber v r := by
  have hdigit : Stops Text.isDigit r := hr.stops fun _ => isDigit_of_isBreak
  cases h with
  | plain hv =>
    refine .plain hv ⟨hdigit, fun _ => hr.stops fun c hc => ne_of_isBreak (by decide) hc⟩ ?_
    refine exponentLength_eq_zero fun c hc => ?_
    dsimp only
    rw [ne_of_isBreak (by decide) (hr c hc), ne_of_isBreak (by decide) (hr c hc)]
    rfl
  | scaled hv hl hne hd => exact .scaled hv hl hne hd hdigit

theorem readsToken_literal {v r : Text} (h : IsLiteral v) (hr : Breaks r) :
    ReadsToken .string v r := by
  obtain ⟨⟨lead, body, rfl, hlead, hbody⟩, -⟩ := h
  exact readsToken_string hlead hbody (runsOn_of_stops (hr.stops fun c hc => ne_of_isBreak (by decide) hc))

theorem readsToken_mark {c : Char} (hc : c = '(' ∨ c = ')' ∨ c = ',' ∨ c = ';') (r : Text) :
    ReadsToken .punct [c] r := by
  have hfacts : isMark c = true ∧ c ≠ '.' := by rcases hc with rfl | rfl | rfl | rfl <;> decide
  exact readsToken_punct hfacts.1 fun h => absurd h hfacts.2

theorem readsToken_equals (r : Text) : ReadsToken .op ['='] r :=
  readsToken_op (by decide) (by decide) (by decide) (by decide) (fun c _ => by simp [isPair])
    (by simp [Text.closerOf]) (comment?_other r (by decide) (by decide))

/-! ## Printed tokens -/

def Token.Printed (t : Token) : Prop :=
  match t.kind with
  | .word => isKeyword t.value = true
  | .ident => ∃ d n, isPlainName n = true ∧ t.value = Dialect.quote d n
  | .string => IsLiteral t.value
  | .number => ReadsNumber t.value []
  | .punct => ∃ c, (c = '(' ∨ c = ')' ∨ c = ',' ∨ c = ';') ∧ t.value = [c]
  | .op => t.value = ['=']

def Token.isMark (t : Token) : Bool := t.kind == .punct || t.kind == .op

/-- A printed token is read as itself before every break, and a mark before any
text. -/
theorem Token.Printed.reads {t : Token} {r : Text} (h : t.Printed)
    (hr : t.isMark = true ∨ Breaks r) : ReadsToken t.kind t.value r := by
  obtain ⟨kind, value, start, spaced⟩ := t
  have hbreaks : ∀ {k : TokenKind}, (k == .punct || k == .op) = false → k = kind → Breaks r := by
    rintro k hk rfl
    rcases hr with hr | hr
    · rw [Token.isMark, hk] at hr
      cases hr
    · exact hr
  cases kind with
  | word => exact readsToken_keyword h (hbreaks rfl rfl)
  | ident =>
    obtain ⟨d, n, hn, hv⟩ := h
    show ReadsToken .ident value r
    rw [show value = d.quote n from hv]
    exact readsToken_quote d n ((hbreaks rfl rfl).stops fun c hc => ne_of_isBreak (by cases d <;> decide) hc)
  | string => exact readsToken_literal h (hbreaks rfl rfl)
  | number => exact readsToken_number (ReadsNumber.before_break h (hbreaks rfl rfl))
  | punct =>
    obtain ⟨c, hc, hv⟩ := h
    show ReadsToken .punct value r
    rw [show value = [c] from hv]
    exact readsToken_mark hc r
  | op =>
    show ReadsToken .op value r
    rw [show value = ['='] from h]
    exact readsToken_equals r

theorem Token.Printed.breaks {t : Token} (h : t.Printed) (hm : t.isMark = true) (r : Text) :
    Breaks (t.value ++ r) := by
  obtain ⟨kind, value, start, spaced⟩ := t
  cases kind with
  | punct =>
    obtain ⟨c, hc, hv⟩ := h
    rw [show value = [c] from hv]
    refine breaks_cons.2 ?_
    rcases hc with rfl | rfl | rfl | rfl <;> decide
  | op =>
    rw [show value = ['='] from h]
    exact breaks_cons.2 (by decide)
  | word => cases hm
  | ident => cases hm
  | string => cases hm
  | number => cases hm

theorem Token.Printed.plain {t : Token} (h : t.Printed) (hw : t.kind = .word) :
    ∀ c ∈ t.value, isPlainChar c = true := by
  obtain ⟨kind, value, start, spaced⟩ := t
  cases show kind = .word from hw
  intro c hc
  cases value with
  | nil => cases hc
  | cons d w => exact (isKeyword_cons h).1 c hc

theorem Token.Printed.head {t : Token} (h : t.Printed) (hw : t.kind ≠ .word) :
    ∃ c w, t.value = c :: w ∧ (Text.isDigit c = true ∨
      c ∈ ['`', '"', '[', '\'', 'N', 'n', '.', '='] ∨ c ∈ ['(', ')', ',', ';'] ∧ t.isPunct [c] = true) := by
  obtain ⟨kind, value, start, spaced⟩ := t
  cases kind with
  | word => exact absurd rfl hw
  | ident =>
    obtain ⟨d, n, hn, hv⟩ := h
    refine ⟨_, _, hv.trans (quote_plainName d hn).1, .inr (.inl ?_)⟩
    cases d <;> decide
  | string =>
    obtain ⟨⟨lead, body, hv, hlead, hbody⟩, -⟩ := h
    rcases hlead with rfl | rfl | rfl
    · exact ⟨_, _, hv, .inr (.inl (by decide))⟩
    · exact ⟨_, _, hv, .inr (.inl (by decide))⟩
    · exact ⟨_, _, hv, .inr (.inl (by decide))⟩
  | number =>
    obtain ⟨c, w, hv, hc⟩ := ReadsNumber.head h
    refine ⟨c, w, hv, hc.imp_right fun hc => ?_⟩
    subst hc
    exact .inl (by decide)
  | punct =>
    obtain ⟨c, hc, hv⟩ := h
    refine ⟨c, [], hv, .inr (.inr ⟨?_, ?_⟩)⟩
    · rcases hc with rfl | rfl | rfl | rfl <;> decide
    · exact beq_iff_eq.2 hv
  | op => exact ⟨_, _, h, .inr (.inl (by decide))⟩

theorem Token.Printed.oneLine {t : Token} (h : t.Printed) : ∀ c ∈ t.value, c ≠ '\n' ∧ c ≠ '\r' := by
  have hname : ∀ {c : Char}, isNameChar c = true → c ≠ '\n' ∧ c ≠ '\r' :=
    of_isNameChar (p := fun c => c ≠ '\n' ∧ c ≠ '\r') (by decide +kernel)
  by_cases hw : t.kind = .word
  · exact fun c hc => hname (isNameChar_of_isPlainChar (h.plain hw c hc))
  obtain ⟨kind, value, start, spaced⟩ := t
  intro c hc
  cases kind with
  | word => exact absurd rfl hw
  | ident =>
    obtain ⟨d, n, hn, hv⟩ := h
    rw [show value = _ from hv.trans (quote_plainName d hn).1] at hc
    rcases List.mem_cons.1 hc with rfl | hc
    · cases d <;> decide
    · rcases List.mem_append.1 hc with hc | hc
      · exact hname (chars_of_isPlainName hn c hc)
      · rw [List.mem_singleton.1 hc]
        cases d <;> decide
  | string => exact IsLiteral.oneLine h c hc
  | number =>
    rcases ReadsNumber.chars h c hc with hd | hd
    · exact ⟨Text.ne_of_isDigit hd (by decide), Text.ne_of_isDigit hd (by decide)⟩
    · clear hc
      revert c
      decide
  | punct =>
    obtain ⟨d, hd, hv⟩ := h
    rw [show value = [d] from hv] at hc
    rw [List.mem_singleton.1 hc]
    rcases hd with rfl | rfl | rfl | rfl <;> decide
  | op =>
    rw [show value = ['='] from h] at hc
    rw [List.mem_singleton.1 hc]
    decide

/-- Whether the token is the word, letter case apart. -/
def Token.spells (t : Token) (word : String) : Bool :=
  t.kind == .word && Text.afterWord? word t.value == some []

/-- Whether the token may be the end of a type that takes parameters. -/
def Token.endsType (t : Token) : Bool :=
  Cleanup.parameterTypes.any fun words => words.getLast?.any t.spells

/-- Whether the token `u` may stand behind the token `t`: the two do not run
together, a comma follows directly, and so does the parenthesis behind a type,
which is not BOOLEAN. -/
def Token.follows (t u : Token) : Bool :=
  (u.spaced || u.isMark || t.isMark) && !(u.isPunct [','] && u.spaced)
    && !(u.isOpen && if u.spaced then t.endsType else t.spells "BOOLEAN")

theorem Token.follows_apart {t u : Token} (h : t.follows u = true) :
    u.spaced = true ∨ u.isMark = true ∨ t.isMark = true := by
  unfold Token.follows at h
  simp only [Bool.and_eq_true, Bool.or_eq_true, or_assoc] at h
  exact h.1.1

/-- Printed tokens, each of which may stand behind the one before it. -/
def Legible : List Token → Prop
  | [] => True
  | [t] => t.Printed
  | t :: u :: ts => t.Printed ∧ t.follows u = true ∧ Legible (u :: ts)

/-- Whether the token may stand behind every token: a spaced one that is neither
a comma nor an opening parenthesis, or a mark that is no such parenthesis. -/
def Token.isLoose (t : Token) : Bool :=
  !t.isOpen && (if t.spaced then !t.isPunct [','] else t.isMark)

def Loose (ts : List Token) : Prop := ∀ t ∈ ts.head?, t.isLoose = true

theorem Token.follows_of_isLoose {u : Token} (h : u.isLoose = true) (t : Token) :
    t.follows u = true := by
  unfold Token.isLoose at h
  unfold Token.follows
  cases hs : u.spaced <;> simp_all

theorem Legible.printed {t : Token} {ts : List Token} (h : Legible (t :: ts)) : t.Printed := by
  cases ts with
  | nil => exact h
  | cons u ts => exact h.1

theorem Legible.tail {t : Token} {ts : List Token} (h : Legible (t :: ts)) : Legible ts := by
  cases ts with
  | nil => trivial
  | cons u ts => exact h.2.2

theorem Legible.append {ts us : List Token} (ht : Legible ts) (hu : Legible us)
    (h : ∀ t ∈ ts.getLast?, ∀ u ∈ us.head?, t.follows u = true) : Legible (ts ++ us) := by
  induction ts with
  | nil => exact hu
  | cons t ts ih =>
    cases ts with
    | nil =>
      cases us with
      | nil => exact ht
      | cons u us => exact ⟨ht, h t rfl u rfl, hu⟩
    | cons v ts =>
      refine ⟨ht.1, ht.2.1, ih ht.tail ?_⟩
      rw [List.getLast?_cons_cons] at h
      exact h

theorem Legible.append_loose {ts us : List Token} (ht : Legible ts) (hu : Legible us)
    (hl : Loose us) : Legible (ts ++ us) :=
  ht.append hu fun t _ u hu => Token.follows_of_isLoose (hl u hu) t

theorem Loose.append {ts us : List Token} (ht : Loose ts) (hu : Loose us) : Loose (ts ++ us) := by
  cases ts with
  | nil => exact hu
  | cons t ts => exact ht

/-- Legible lists in a row, each of which may stand behind anything. -/
theorem legible_flatMap {α : Type} {f : α → List Token} {as : List α}
    (h : ∀ a ∈ as, Legible (f a) ∧ Loose (f a)) : Legible (as.flatMap f) ∧ Loose (as.flatMap f) := by
  induction as with
  | nil => exact ⟨trivial, fun t ht => nomatch ht⟩
  | cons a as ih =>
    obtain ⟨hleg, hloose⟩ := h a List.mem_cons_self
    obtain ⟨hlegs, hlooses⟩ := ih fun b hb => h b (List.mem_cons_of_mem a hb)
    rw [List.flatMap_cons]
    exact ⟨hleg.append_loose hlegs hlooses, hloose.append hlooses⟩

/-! ## Reading lines of tokens -/

/-- The tokens of a text without their places, the first one spaced if `spaced`
says so. -/
def scan (spaced : Bool) (s : Text) : List Token := bare (tokensFrom 0 spaced s)

theorem bare_tokensFrom (pos pos' : Nat) (spaced : Bool) (s : Text) :
    bare (tokensFrom pos spaced s) = bare (tokensFrom pos' spaced s) := by
  fun_induction tokensFrom pos spaced s generalizing pos' with
  | case1 => rw [tokensFrom_nil]
  | case2 pos spaced c s p hkind ih =>
    have hp : piece c s = ⟨.gap, p.text, p.rest⟩ := by rw [← hkind]
    rw [tokensFrom_of_gap hp]
    exact ih _
  | case3 pos spaced c s p k hkind ih =>
    have hp : piece c s = ⟨.token k, p.text, p.rest⟩ := by rw [← hkind]
    rw [tokensFrom_of_token hp, bare_cons, bare_cons, ih]
    rfl

theorem scan_nil (spaced : Bool) : scan spaced [] = [] := by
  rw [scan, tokensFrom_nil]
  rfl

theorem scan_token {k : TokenKind} {v r : Text} (h : ReadsToken k v r) (spaced : Bool) :
    scan spaced (v ++ r) = ⟨k, v, 0, spaced⟩ :: scan false r := by
  obtain ⟨c, w, rfl, hp⟩ := h
  rw [scan, List.cons_append, tokensFrom_of_token hp, bare_cons, bare_tokensFrom _ 0]
  rfl

theorem scan_blank {c : Char} (hc : Text.isBlank c = true) (spaced : Bool) (r : Text) :
    scan spaced (c :: r) = scan true r := by
  have hrun : ∀ {d : Char} (t : Text) (sp : Bool), Text.isBlank d = true →
      scan sp (d :: t) = scan true (t.dropWhile Text.isBlank) := by
    intro d t sp hd
    have hsplit := List.takeWhile_append_dropWhile (p := Text.isBlank) (l := t)
    have hp := piece_blanks (b := t.takeWhile Text.isBlank) hd (fun e => List.mem_takeWhile_imp) (stops_dropWhile Text.isBlank t)
    rw [hsplit] at hp
    rw [scan, tokensFrom_of_gap hp, bare_tokensFrom _ 0]
    rfl
  rw [hrun r spaced hc]
  cases r with
  | nil => rfl
  | cons d r =>
    rw [List.dropWhile_cons]
    split
    · rename_i hd
      exact (hrun r true hd).symm
    · rfl

theorem Legible.breaks {ts : List Token} {r : Text} (h : Legible ts)
    (hs : ∀ t ∈ ts.head?, t.spaced = true ∨ t.isMark = true) (hr : Breaks r) :
    Breaks (renderBehind Token.value ts ++ r) := by
  cases ts with
  | nil => exact hr
  | cons t ts =>
    rw [renderBehind]
    cases hsp : t.spaced with
    | true => exact breaks_cons.2 (by decide)
    | false =>
      have hm := (hs t rfl).resolve_left (by simp [hsp])
      simpa using h.printed.breaks hm (renderBehind Token.value ts ++ r)

/-- Behind a token that is no mark, a legible list goes on with a break. -/
theorem Legible.breaks_behind {t : Token} {ts : List Token} {r : Text} (h : Legible (t :: ts))
    (hm : t.isMark = false) (hr : Breaks r) : Breaks (renderBehind Token.value ts ++ r) := by
  refine h.tail.breaks (fun u hu => ?_) hr
  cases ts with
  | nil => cases hu
  | cons v ts =>
    cases hu
    exact (Token.follows_apart h.2.1).imp_right fun h => h.resolve_right (by simp [hm])

/-- Each token of a legible list is read before the tokens that follow it. -/
theorem Legible.reads {t : Token} {ts : List Token} {r : Text} (h : Legible (t :: ts))
    (hr : Breaks r) : ReadsToken t.kind t.value (renderBehind Token.value ts ++ r) := by
  refine h.printed.reads ?_
  cases hm : t.isMark with
  | true => exact .inl rfl
  | false => exact .inr (h.breaks_behind hm hr)

/-- Each of the tokens is read as itself in front of those behind it and the text
`r`. -/
def ReadsAll (r : Text) : List Token → Prop
  | [] => True
  | t :: ts => ReadsToken t.kind t.value (renderBehind Token.value ts ++ r) ∧ ReadsAll r ts

theorem Legible.readsAll {ts : List Token} {r : Text} (h : Legible ts) (hr : Breaks r) :
    ReadsAll r ts := by
  induction ts with
  | nil => trivial
  | cons t ts ih => exact ⟨h.reads hr, ih h.tail⟩

theorem scan_renderBehind {ts : List Token} {r : Text} (h : ReadsAll r ts) :
    scan false (renderBehind Token.value ts ++ r) = bare ts ++ scan false r := by
  induction ts with
  | nil => rfl
  | cons t ts ih =>
    obtain ⟨hread, hrest⟩ := h
    rw [renderBehind, bare_cons, List.cons_append, ← ih hrest, List.append_assoc, List.append_assoc]
    cases hs : t.spaced with
    | true =>
      rw [if_pos rfl, List.cons_append, List.nil_append, scan_blank (by decide), scan_token hread]
      simp [Token.shape, hs]
    | false =>
      rw [if_neg Bool.false_ne_true, List.nil_append, scan_token hread]
      simp [Token.shape, hs]

theorem bare_tokenize_renderTokens {ts : List Token} (h : ReadsAll [] ts) :
    bare (tokenize (renderTokens ts)) = shapes ts := by
  show scan false (renderTokens ts) = _
  cases ts with
  | nil => exact scan_nil false
  | cons t ts =>
    obtain ⟨hread, hrest⟩ := h
    have hbehind := scan_renderBehind hrest
    rw [List.append_nil, scan_nil, List.append_nil] at hbehind
    rw [List.append_nil] at hread
    show scan false (t.value ++ renderBehind Token.value ts) = _
    rw [scan_token hread, hbehind]
    rfl

structure Line where
  indent : Nat
  tokens : List Token

namespace Line

def text (l : Line) : Text := List.replicate l.indent ' ' ++ renderTokens l.tokens

/-- Whether the token may start a line: it goes on with nothing of the line
before. -/
def isStart (t : Token) : Bool :=
  t.value.head?.all fun c => c != ',' && c != '(' && !Text.sameLetter 'V' c

/-- The line can be read: it is legible and not empty, and its first token is
marked as spaced, as it is behind a line end. -/
def IsReadable (l : Line) : Prop :=
  Legible l.tokens ∧ ∃ t ts, l.tokens = t :: ts ∧ t.spaced = true ∧ isStart t = true

theorem scan_indent (n : Nat) (r : Text) : scan true (List.replicate n ' ' ++ r) = scan true r := by
  induction n with
  | zero => rfl
  | succ n ih => rw [List.replicate_succ, List.cons_append, scan_blank (by decide), ih]

theorem scan_text {l : Line} {r : Text} (h : l.IsReadable) (hr : Breaks r) :
    scan true (l.text ++ r) = bare l.tokens ++ scan false r := by
  obtain ⟨indent, tokens⟩ := l
  obtain ⟨hleg, t, ts, rfl, hs, -⟩ := h
  rw [text, List.append_assoc, scan_indent]
  show scan true (t.value ++ renderBehind Token.value ts ++ r) = _
  rw [List.append_assoc, scan_token (Legible.reads hleg hr), scan_renderBehind (Legible.readsAll (Legible.tail hleg) hr)]
  simp [Token.shape, hs]

end Line

def linesText (ls : List Line) : Text := Text.join ['\n'] (ls.map Line.text)

def linesBelow (ls : List Line) : Text := ls.flatMap fun l => '\n' :: l.text

theorem linesText_cons (l : Line) (ls : List Line) :
    linesText (l :: ls) = l.text ++ linesBelow ls := by
  induction ls generalizing l with
  | nil => simp [linesText, linesBelow, Text.join]
  | cons m ls ih =>
    have := ih m
    simp only [linesText, linesBelow, List.map_cons, Text.join, List.flatMap_cons] at this ⊢
    rw [this]
    simp

theorem breaks_linesBelow (ls : List Line) : Breaks (linesBelow ls) := by
  cases ls with
  | nil => exact breaks_nil
  | cons l ls => exact breaks_cons.2 (by decide)

theorem scan_linesBelow {ls : List Line} (h : ∀ l ∈ ls, l.IsReadable) :
    scan false (linesBelow ls) = bare (ls.flatMap Line.tokens) := by
  induction ls with
  | nil => exact scan_nil false
  | cons l ls ih =>
    have hrest := ih fun m hm => h m (List.mem_cons_of_mem l hm)
    have hl := Line.scan_text (h l List.mem_cons_self) (breaks_linesBelow ls)
    rw [linesBelow, List.flatMap_cons, List.cons_append, scan_blank (by decide)]
    show scan true (l.text ++ linesBelow ls) = _
    rw [hl, hrest, List.flatMap_cons, bare_append]

theorem shapes_tokenize_linesText {ls : List Line} (h : ∀ l ∈ ls, l.IsReadable)
    (hfirst : ∀ l ∈ ls.head?, l.indent = 0) :
    shapes (tokenize (linesText ls)) = shapes (ls.flatMap Line.tokens) := by
  cases ls with
  | nil =>
    show shapes (tokensFrom 0 false []) = _
    rw [tokensFrom_nil]
    rfl
  | cons l ls =>
    have hbelow := scan_linesBelow fun m hm => h m (List.mem_cons_of_mem l hm)
    obtain ⟨indent, tokens⟩ := l
    obtain ⟨hleg, t, ts, rfl, -⟩ := h _ List.mem_cons_self
    cases show indent = 0 from hfirst _ rfl
    have hbreaks := breaks_linesBelow ls
    have hscan : scan false (linesText (⟨0, t :: ts⟩ :: ls)) =
        ⟨t.kind, t.value, 0, false⟩ :: bare (ts ++ ls.flatMap Line.tokens) := by
      rw [linesText_cons]
      show scan false (t.value ++ renderBehind Token.value ts ++ linesBelow ls) = _
      rw [List.append_assoc, scan_token (Legible.reads hleg hbreaks),
        scan_renderBehind (Legible.readsAll (Legible.tail hleg) hbreaks), hbelow, bare_append]
    rw [← shapes_bare, tokenize]
    show shapes (scan false _) = _
    rw [hscan]
    simp [shapes]

end TableDialects
