import Mathlib.Data.List.Forall2
import TableDialects.Proofs.Token.Rules
import TableDialects.Proofs.Value.Spelling
import TableDialects.Translate.Expression

/- Expressions respelled for another dialect and read again. Each token is respelled
   by itself, and written where it stood. So it may run into what is written behind it:
   a quoted text into a quote that follows it directly, a quote that was never closed
   into a later one, and a word N into a string. Where none of this happens, the tokens
   are read again as they were respelled, and only there (`keeps_iff_isParted`). -/
namespace TableDialects

open Scan

/-! ## Tokens that end where they should -/

/-- Whether the token, written in front of `r`, ends there: quoted text does not go on,
a single N is no mark of a string, and a single quote is not closed. -/
def Token.endsBefore (t : Token) (r : Text) : Bool :=
  match t.kind with
  | .string => t.value.getLast?.all fun q => !runsOn q r
  | .ident => t.value.getLast?.all fun q => !runsOn q r
  | .word => !(t.value == ['N'] || t.value == ['n']) || !runsOn '\'' r
  | .op => t.value.length != 1 || t.value.all fun c => (Text.closerOf c).all fun q => !r.contains q
  | .number => true
  | .punct => true

/-- Whether each of the tokens, written one behind the other, ends before the next. -/
def isParted : List Token → Bool
  | [] => true
  | t :: ts => t.endsBefore (renderBehind Token.value ts) && isParted ts

theorem endsBefore_string (lead b : Text) (place : Nat) (spaced : Bool) (r : Text) :
    (⟨.string, lead ++ '\'' :: (b ++ ['\'']), place, spaced⟩ : Token).endsBefore r = !runsOn '\'' r := by
  have hlast : (lead ++ '\'' :: (b ++ ['\''])).getLast? = some '\'' := by
    rw [← List.cons_append, ← List.append_assoc, List.getLast?_concat]
  rw [Token.endsBefore, hlast, Option.all_some]

theorem endsBefore_ident (o q : Char) (b : Text) (place : Nat) (spaced : Bool) (r : Text) :
    (⟨.ident, o :: (b ++ [q]), place, spaced⟩ : Token).endsBefore r = !runsOn q r := by
  rw [Token.endsBefore, ← List.cons_append, List.getLast?_concat, Option.all_some]

theorem TokenRule.endsBefore {r : Text} {t : Token} (h : TokenRule r t.kind t.value) : t.endsBefore r = true := by
  obtain ⟨k, v, start, spaced⟩ := t
  cases h with
  | string hlead hr => exact (endsBefore_string _ _ _ _ r).trans (congrArg not hr)
  | ident ho hr => exact (endsBefore_ident _ _ _ _ _ r).trans (congrArg not hr)
  | number h => rfl
  | @word c w hc hw hr hn =>
    simp only [Token.endsBefore, Bool.or_eq_true, Bool.not_eq_true', Bool.or_eq_false_iff, beq_eq_false_iff_ne]
    by_cases hN : c :: w = ['N'] ∨ c :: w = ['n']
    · exact .inr (hn hN)
    · exact .inl (not_or.1 hN)
  | punct => rfl
  | pair => rfl
  | @op c hblank hdigit hword hmark hpair hquote hcomment =>
    cases hq : Text.closerOf c with
    | none => simp [Token.endsBefore, hq]
    | some q => simpa [Token.endsBefore, hq] using hquote q hq

/-! ## Hiding quotes -/

/-- The characters that open or close quotes. -/
def quoteChars : List Char := ['\'', '"', '`', '[', ']']

def hideQuotes (s : Text) : Text := s.map fun c => if c ∈ quoteChars then ' ' else c

theorem hideQuotes_append (s r : Text) : hideQuotes (s ++ r) = hideQuotes s ++ hideQuotes r := List.map_append

theorem hideQuotes_quote {c : Char} (hc : c ∈ quoteChars) (s : Text) :
    hideQuotes (c :: s) = ' ' :: hideQuotes s := by
  rw [hideQuotes, List.map_cons, if_pos hc, hideQuotes]

theorem hideQuotes_other {c : Char} (hc : c ∉ quoteChars) (s : Text) : hideQuotes (c :: s) = c :: hideQuotes s := by
  rw [hideQuotes, List.map_cons, if_neg hc, hideQuotes]

theorem thinned_hideQuotes (v : Text) {r r' : Text} (h : Thinned r r') :
    Thinned (v ++ r) (hideQuotes v ++ r') := by
  induction v with
  | nil => exact h
  | cons c v ih =>
    by_cases hc : c ∈ quoteChars
    · rw [hideQuotes_quote hc]
      exact .gap (by decide) [c] ih
    · rw [hideQuotes_other hc]
      exact .keep c ih

theorem thinned_double {q q' : Char} (hq : q ∈ quoteChars) (hq' : q' ∈ quoteChars) (n : Text) {r r' : Text}
    (h : Thinned r r') : Thinned (Text.double q n ++ r) (hideQuotes (Text.double q' n) ++ r') := by
  induction n with
  | nil => exact h
  | cons c n ih =>
    have hsplit : ∀ d, Text.double d (c :: n) = (if c = d then [c, c] else [c]) ++ Text.double d n := fun _ =>
      List.flatMap_cons
    rw [hsplit, hsplit, hideQuotes_append, List.append_assoc, List.append_assoc]
    by_cases hc : c ∈ quoteChars
    · have hone : Thinned ((if c = q then [c, c] else [c]) ++ (Text.double q n ++ r))
          (' ' :: (hideQuotes (Text.double q' n) ++ r')) := .gap (by decide) _ ih
      by_cases hcq : c = q'
      · rw [if_pos hcq, hideQuotes_quote hc, hideQuotes_quote hc]
        exact .gap (by decide) [] hone
      · rw [if_neg hcq, hideQuotes_quote hc]
        exact hone
    · have hne : ∀ {d}, d ∈ quoteChars → c ≠ d := by
        rintro d hd rfl
        exact hc hd
      rw [if_neg (hne hq), if_neg (hne hq'), hideQuotes_other hc]
      exact .keep c ih

theorem thinned_quoted {o q o' q' : Char} {n n' : Text} (hq : q ∈ quoteChars) (ho' : o' ∈ quoteChars)
    (hq' : q' ∈ quoteChars) (hn : n' <:+: n) {r r' : Text} (h : Thinned r r') :
    Thinned (o :: (Text.double q n ++ [q]) ++ r) (hideQuotes (o' :: (Text.double q' n' ++ [q'])) ++ r') := by
  obtain ⟨a, b, rfl⟩ := hn
  have hdouble : ∀ x y, Text.double q (x ++ y) = Text.double q x ++ Text.double q y := fun _ _ =>
    List.flatMap_append
  have hend : Thinned (Text.double q b ++ [q] ++ r) (' ' :: r') := .gap (by decide) _ h
  have hmiddle := thinned_double hq hq' n' hend
  have hstart : Thinned (o :: Text.double q a ++ (Text.double q n' ++ (Text.double q b ++ [q] ++ r)))
      (' ' :: (hideQuotes (Text.double q' n') ++ (' ' :: r'))) := .gap (by decide) _ hmiddle
  rw [hideQuotes_quote ho', hideQuotes_append, hideQuotes_quote hq']
  simpa [hdouble, hideQuotes] using hstart

theorem stops_of_hideQuotes {p : Char → Bool} (hp : ∀ c ∈ quoteChars, p c = false) {s : Text}
    (h : Stops p (hideQuotes s)) : Stops p s := by
  cases s with
  | nil => exact stops_nil p
  | cons c s =>
    by_cases hc : c ∈ quoteChars
    · exact stops_cons.2 (hp c hc)
    · rw [hideQuotes_other hc, stops_cons] at h
      exact stops_cons.2 h

theorem hideQuotes_of_not_mem {s : Text} (h : ∀ c ∈ s, c ∉ quoteChars) : hideQuotes s = s := by
  induction s with
  | nil => rfl
  | cons c s ih =>
    rw [hideQuotes_other (h c List.mem_cons_self), ih fun d hd => h d (List.mem_cons_of_mem c hd)]

theorem exponentLength_of_hideQuotes {s : Text} (h : exponentLength (hideQuotes s) = 0) : exponentLength s = 0 := by
  apply Decidable.byContradiction
  intro hne
  obtain ⟨lead, ds, y, hl, hds, hd, hy, rfl⟩ := exponent_cases hne
  have hleads : ∀ c ∈ lead, c ∉ quoteChars := by
    obtain ⟨e, rfl | rfl, rfl | rfl | rfl⟩ := hl <;> decide
  have hdigits : ∀ c ∈ ds, c ∉ quoteChars := by
    intro c hc hmem
    have hnone : ∀ c ∈ quoteChars, Text.isDigit c = false := by decide
    have hdigit := hd c hc
    rw [hnone c hmem] at hdigit
    cases hdigit
  have hstop : Stops Text.isDigit (hideQuotes y) := by
    cases y with
    | nil => exact stops_nil _
    | cons c y =>
      by_cases hc : c ∈ quoteChars
      · rw [hideQuotes_quote hc]
        exact stops_cons.2 (by decide)
      · rw [hideQuotes_other hc]
        exact stops_cons.2 (stops_cons.1 hy)
  rw [hideQuotes_append, hideQuotes_append, hideQuotes_of_not_mem hleads, hideQuotes_of_not_mem hdigits,
    exponentLength_append hl hds hd hstop] at h
  have := List.length_pos_iff.2 hds
  omega

theorem ReadsNumber.of_hideQuotes {v r : Text} (h : ReadsNumber v (hideQuotes r)) : ReadsNumber v r := by
  have hdigit : ∀ c ∈ quoteChars, Text.isDigit c = false := by decide
  cases h with
  | plain hv hr he =>
    exact .plain hv ⟨stops_of_hideQuotes hdigit hr.1, fun hpoint => stops_of_hideQuotes (by decide) (hr.2 hpoint)⟩
      (exponentLength_of_hideQuotes he)
  | scaled hv hl hne hd hr => exact .scaled hv hl hne hd (stops_of_hideQuotes hdigit hr)

theorem closeComment?_of_hideQuotes {s : Text} (h : closeComment? (hideQuotes s) = none) :
    closeComment? s = none := by
  fun_induction closeComment? s with
  | case1 => rfl
  | case2 => rfl
  | case3 c d s hcd =>
    simp only [Bool.and_eq_true, beq_iff_eq] at hcd
    obtain ⟨rfl, rfl⟩ := hcd
    rw [hideQuotes_other (by decide), hideQuotes_other (by decide), closeComment?] at h
    cases h
  | case4 c d s hcd body rest hs ih =>
    rw [ih (closeComment?_tail h)] at hs
    cases hs
  | case5 => rfl

theorem comment?_of_hideQuotes {c : Char} {r : Text} (h : comment? (c :: hideQuotes r) = none) :
    comment? (c :: r) = none := by
  cases r with
  | nil => exact comment?_single c
  | cons d r =>
    rw [comment?_cons]
    split
    · rename_i hline
      obtain ⟨rfl, rfl⟩ := hline
      rw [hideQuotes_other (by decide), comment?_cons, if_pos ⟨rfl, rfl⟩] at h
      cases h
    · split
      · rename_i hblock
        obtain ⟨rfl, rfl⟩ := hblock
        rw [hideQuotes_other (by decide), comment?_cons, if_neg (by decide), if_pos ⟨rfl, rfl⟩,
          Option.map_eq_none_iff] at h
        rw [closeComment?_of_hideQuotes h]
        rfl
      · rfl

/-- A token that is neither a string nor a quoted name is read in front of a text that
differs from the one behind it only in quotes and at its gaps, if it ends before it. -/
theorem TokenRule.respelled {t : Token} {r r' : Text} (h : TokenRule r t.kind t.value)
    (hstring : t.kind ≠ .string) (hident : t.kind ≠ .ident) (ht : Thinned r (hideQuotes r'))
    (hends : t.endsBefore r' = true) : TokenRule r' t.kind t.value := by
  have hdigit : ∀ c ∈ quoteChars, Text.isDigit c = false := by decide
  obtain ⟨k, v, start, spaced⟩ := t
  cases h with
  | string => exact absurd rfl hstring
  | ident => exact absurd rfl hident
  | number h => exact .number (ReadsNumber.of_hideQuotes (h.thinned ht))
  | @word c w hc hw hr hn =>
    refine .word hc hw ?_ ?_
    · exact stops_of_hideQuotes (by decide) (ht.stops (fun _ => continuesWord_of_isSeparator) hr)
    · intro hN
      rcases hN with hN | hN <;> cases hN <;> simpa [Token.endsBefore] using hends
  | punct hc hr =>
    exact .punct hc fun heq => stops_of_hideQuotes hdigit (ht.stops (fun _ => isDigit_of_isSeparator) (hr heq))
  | pair h => exact .pair h
  | @op c hblank hd hword hmark hpair hquote hcomment =>
    refine .op hblank hd hword hmark ?_ ?_ (comment?_of_hideQuotes (comment?_thinned hcomment ht))
    · refine stops_of_hideQuotes ?_ (ht.stops (fun _ => isPair_of_isSeparator c) hpair)
      simp [quoteChars, isPair]
    · intro q hq
      simpa [Token.endsBefore, hq] using hends

namespace Expression

/-! ## Respelled tokens -/

/-- Whether the token is text in double quotes that MySQL reads as a string. -/
def isText (source : Dialect) (t : Token) : Bool :=
  source == .mysql && t.kind == .ident && t.value.head? == some '"'

def respelled (source target : Dialect) (t : Token) : Token :=
  { t with
    kind := if isText source t then .string else t.kind
    value := respell source target t }

/-- The token `u` stands for what the token `t` stood for in the source dialect: it is
of the same kind, except that text in double quotes is a string for MySQL; words,
numbers and marks are the same, strings have the same value, and names are the same
without white space and quotes at their edges. -/
structure Keeps (source : Dialect) (t u : Token) : Prop where
  kind : u.kind = if isText source t then .string else t.kind
  value : t.kind ≠ .string → t.kind ≠ .ident → u.value = t.value
  string : t.kind = .string → stringValue u.value = stringValue t.value
  text : t.kind = .ident → u.kind = .string → stringValue u.value = unquoteIdentifier t.value
  name : t.kind = .ident → u.kind = .ident →
    unquoteIdentifier u.value = Dialect.bareName (unquoteIdentifier t.value)

inductive Respelling (source target : Dialect) : Token → Token → Prop
  | string {lead lead' n : Text} {place : Nat} {spaced : Bool}
    (hlead : lead = [] ∨ lead = ['N'] ∨ lead = ['n']) (hlead' : lead' = lead ∨ lead' = []) :
    Respelling source target ⟨.string, lead ++ '\'' :: (Text.double '\'' n ++ ['\'']), place, spaced⟩
      ⟨.string, lead' ++ '\'' :: (Text.double '\'' n ++ ['\'']), place, spaced⟩
  | text {n : Text} {place : Nat} {spaced : Bool} (hsource : source = .mysql) :
    Respelling source target ⟨.ident, '"' :: (Text.double '"' n ++ ['"']), place, spaced⟩
      ⟨.string, '\'' :: (Text.double '\'' n ++ ['\'']), place, spaced⟩
  | name {o q : Char} {n : Text} {place : Nat} {spaced : Bool} (ho : NameQuotes o q)
    (hsource : source = .mysql → o ≠ '"') :
    Respelling source target ⟨.ident, o :: (Text.double q n ++ [q]), place, spaced⟩
      ⟨.ident, target.quote n, place, spaced⟩
  | same {t : Token} (hstring : t.kind ≠ .string) (hident : t.kind ≠ .ident) : Respelling source target t t

theorem isText_eq_false {source : Dialect} {t : Token} (h : t.kind ≠ .ident) : isText source t = false := by
  simp [isText, h]

theorem respelled_string (source target : Dialect) {lead n : Text} (hlead : lead = [] ∨ lead = ['N'] ∨ lead = ['n'])
    (place : Nat) (spaced : Bool) :
    let t : Token := ⟨.string, lead ++ '\'' :: (Text.double '\'' n ++ ['\'']), place, spaced⟩
    Respelling source target t (respelled source target t) := by
  intro t
  have hvalue : respell source target t = t.value ∨
      respell source target t = '\'' :: (Text.double '\'' n ++ ['\'']) := by
    simp only [respell, t]
    rcases hlead with rfl | rfl | rfl
    · exact .inl rfl
    · split
      · exact .inr rfl
      · exact .inl rfl
    · split
      · exact .inr rfl
      · exact .inl rfl
  rw [respelled, isText_eq_false (show t.kind ≠ .ident from TokenKind.noConfusion)]
  rcases hvalue with hvalue | hvalue
  · rw [hvalue]
    exact .string hlead (.inl rfl)
  · rw [hvalue]
    exact .string hlead (.inr rfl)

theorem respelled_ident (source target : Dialect) {o q : Char} (ho : NameQuotes o q) (n : Text) (place : Nat)
    (spaced : Bool) :
    let t : Token := ⟨.ident, o :: (Text.double q n ++ [q]), place, spaced⟩
    Respelling source target t (respelled source target t) := by
  intro t
  have hname : unquoteIdentifier t.value = n := unquoteIdentifier_double ho n
  by_cases htext : source = .mysql ∧ o = '"'
  · obtain ⟨rfl, rfl⟩ := htext
    have hq : q = '"' := by
      rcases ho with ⟨hc, -⟩ | ⟨-, hq⟩ | ⟨hc, -⟩
      · cases hc
      · exact hq
      · cases hc
    subst hq
    have hvalue : respell .mysql target t = '\'' :: (Text.double '\'' n ++ ['\'']) := by
      rw [← hname]
      rfl
    rw [respelled, hvalue]
    exact .text rfl
  · have hkind : isText source t = false := by
      simpa [isText, t] using htext
    have hvalue : respell source target t = target.quote n := by
      simp only [respell, t, hname]
      rw [if_neg (by simpa using htext)]
    rw [respelled, hkind, hvalue]
    exact .name ho fun hsource hc => htext ⟨hsource, hc⟩

theorem respelled_same (source target : Dialect) {t : Token} (hstring : t.kind ≠ .string) (hident : t.kind ≠ .ident) :
    respelled source target t = t := by
  have hvalue : respell source target t = t.value := by
    unfold respell
    split
    · rename_i hkind
      exact absurd hkind hident
    · rename_i hkind
      exact absurd hkind hstring
    · rfl
  rw [respelled, isText_eq_false hident, hvalue]
  rfl

theorem respelling (source target : Dialect) {t : Token} {r : Text} (h : TokenRule r t.kind t.value) :
    Respelling source target t (respelled source target t) := by
  by_cases hstring : t.kind = .string
  · obtain ⟨k, v, place, spaced⟩ := t
    cases hstring
    cases h with
    | string hlead hr => exact respelled_string source target hlead place spaced
  by_cases hident : t.kind = .ident
  · obtain ⟨k, v, place, spaced⟩ := t
    cases hident
    cases h with
    | ident ho hr => exact respelled_ident source target ho _ place spaced
  · rw [respelled_same source target hstring hident]
    exact .same hstring hident

theorem stringValue_quoted {lead : Text} (hlead : lead = [] ∨ lead = ['N'] ∨ lead = ['n']) (n : Text) :
    stringValue (lead ++ '\'' :: (Text.double '\'' n ++ ['\''])) = n := by
  rcases hlead with rfl | rfl | rfl <;> exact stringValue_double n

namespace Respelling

variable {source target : Dialect} {t u : Token}

theorem keeps (h : Respelling source target t u) : Keeps source t u := by
  cases h with
  | string hlead hlead' =>
    refine {
      kind := by rw [isText_eq_false (by simp)]; rfl
      value := fun hk => absurd rfl hk
      string := fun _ => ?_
      text := fun hk => by cases hk
      name := fun hk => by cases hk }
    rw [stringValue_quoted hlead, stringValue_quoted]
    rcases hlead' with rfl | rfl
    · exact hlead
    · exact .inl rfl
  | text hsource =>
    refine {
      kind := by simp [isText, hsource]
      value := fun _ hk => absurd rfl hk
      string := fun hk => by cases hk
      text := fun _ _ => ?_
      name := fun _ hk => by cases hk }
    rw [stringValue_double, unquoteIdentifier_double (.inr (.inl ⟨rfl, rfl⟩))]
  | name ho hsource =>
    refine {
      kind := by simpa [isText] using hsource
      value := fun _ hk => absurd rfl hk
      string := fun hk => by cases hk
      text := fun _ hk => by cases hk
      name := fun _ _ => ?_ }
    rw [unquoteIdentifier_quote, unquoteIdentifier_double ho]
  | same hstring hident =>
    exact {
      kind := by rw [isText_eq_false hident]; rfl
      value := fun _ _ => rfl
      string := fun _ => rfl
      text := fun hk => absurd hk hident
      name := fun hk => absurd hk hident }

/-- Respelling changes quotes, what stands between a name and its quotes, and the
mark of a string. -/
theorem thinned (h : Respelling source target t u) {r r' : Text} (hr : Thinned r r') :
    Thinned (t.value ++ r) (hideQuotes u.value ++ r') := by
  cases h with
  | @string lead lead' n _ _ hlead hlead' =>
    rcases hlead' with rfl | rfl
    · exact thinned_hideQuotes _ hr
    · rw [List.nil_append, hideQuotes_quote (by decide)]
      have hgap := Thinned.gap (c := ' ') (by decide) (lead ++ ['\''])
        (thinned_hideQuotes (Text.double '\'' n ++ ['\'']) hr)
      simpa using hgap
  | text => exact thinned_quoted (by decide) (by decide) (by decide) (List.infix_refl _) hr
  | name ho =>
    have hmem : ∀ {o q : Char}, NameQuotes o q → o ∈ quoteChars ∧ q ∈ quoteChars := by
      rintro o q (⟨rfl, rfl⟩ | ⟨rfl, rfl⟩ | ⟨rfl, rfl⟩) <;> decide
    obtain ⟨ho', hq'⟩ := hmem (nameQuotes target)
    exact thinned_quoted (hmem ho).2 ho' hq' (isInfix_bareName _) hr
  | same => exact thinned_hideQuotes _ hr

/-- A respelled token is read in front of a text that was respelled too exactly if it
ends there. -/
theorem reads_iff (h : Respelling source target t u) {r r' : Text} (ht : TokenRule r t.kind t.value)
    (hr : Thinned r (hideQuotes r')) : TokenRule r' u.kind u.value ↔ u.endsBefore r' = true := by
  refine ⟨TokenRule.endsBefore, fun hends => ?_⟩
  cases h with
  | string hlead hlead' =>
    rw [endsBefore_string, Bool.not_eq_true'] at hends
    refine .string ?_ hends
    rcases hlead' with rfl | rfl
    · exact hlead
    · exact .inl rfl
  | @text n =>
    have hr' := (endsBefore_string [] (Text.double '\'' n) _ _ r').symm.trans hends
    rw [Bool.not_eq_true'] at hr'
    show TokenRule r' .string ([] ++ '\'' :: (Text.double '\'' n ++ ['\'']))
    exact .string (.inl rfl) hr'
  | name ho =>
    rw [quote_eq, endsBefore_ident, Bool.not_eq_true'] at hends
    exact .ident (nameQuotes target) hends
  | same hstring hident => exact ht.respelled hstring hident hr hends

/-- Where a respelled token does not end, some other token is read, and no gap. -/
theorem exists_reads (h : Respelling source target t u) {r r' : Text} (ht : TokenRule r t.kind t.value)
    (hr : Thinned r (hideQuotes r')) : ∃ k v x, ReadsToken k v x ∧ v ++ x = u.value ++ r' := by
  by_cases hends : u.endsBefore r' = true
  · exact ⟨u.kind, u.value, r', ((h.reads_iff ht hr).2 hends).reads, rfl⟩
  · have hstart : ∀ {c : Char} {w : Text}, u.value = c :: w → Text.isBlank c = false → c ≠ '-' → c ≠ '/' →
        ∃ k v x, ReadsToken k v x ∧ v ++ x = u.value ++ r' := by
      intro c w hvalue hb hm hsl
      obtain ⟨k, hk⟩ := piece_kind_of_comment?_eq_none hb (comment?_other (w ++ r') hm hsl)
      rw [hvalue, List.cons_append]
      exact ⟨k, _, _, readsToken_of_piece hk, (cuts_piece c (w ++ r')).2⟩
    cases h with
    | string hlead hlead' =>
      rcases hlead' with rfl | rfl
      · rcases hlead with rfl | rfl | rfl <;> exact hstart rfl (by decide) (by decide) (by decide)
      · exact hstart rfl (by decide) (by decide) (by decide)
    | text => exact hstart rfl (by decide) (by decide) (by decide)
    | name =>
      have hopen := nameQuotes target
      refine hstart (quote_eq target _) ?_ ?_ ?_ <;>
        rcases hopen with ⟨ho, -⟩ | ⟨ho, -⟩ | ⟨ho, -⟩ <;> rw [ho] <;> decide
    | same hstring hident =>
      obtain ⟨k, v, place, spaced⟩ := t
      cases ht with
      | string => exact absurd rfl hstring
      | ident => exact absurd rfl hident
      | number => exact absurd rfl hends
      | @word c w hc hw hr hn =>
        obtain ⟨-, hb, hm, hsl, -⟩ := facts_of_startsWord hc
        exact hstart rfl hb hm hsl
      | punct => exact absurd rfl hends
      | pair => exact absurd rfl hends
      | @op c hb hd hw hmark hp hq hc =>
        have hcloser : Text.closerOf c ≠ none := by
          intro hnone
          exact hends (by simp [Token.endsBefore, hnone])
        refine hstart rfl hb ?_ ?_ <;> rintro rfl <;> exact hcloser rfl

/-- What is read in the place of a respelled token and stands for the same is that
token. -/
theorem unique (h : Respelling source target t u) {w : Token} {x y : Text} (hkeeps : Keeps source t w)
    (hw : TokenRule y w.kind w.value) (heq : w.value ++ y = u.value ++ x) : w.word = u.word := by
  have hkind : w.kind = u.kind := hkeeps.kind.trans h.keeps.kind.symm
  suffices w.value = u.value from Prod.ext hkind this
  obtain ⟨k, v, place, spaced⟩ := w
  have hlead : ∀ {lead lead' a b : Text}, (lead = [] ∨ lead = ['N'] ∨ lead = ['n']) →
      (lead' = [] ∨ lead' = ['N'] ∨ lead' = ['n']) →
      lead ++ '\'' :: a = lead' ++ '\'' :: b → lead = lead' := by
    rintro lead lead' a b (rfl | rfl | rfl) (rfl | rfl | rfl) heq <;> simp_all
  cases h with
  | @string lead lead' n _ _ hl hl' =>
    have hl' : lead' = [] ∨ lead' = ['N'] ∨ lead' = ['n'] := by
      rcases hl' with rfl | rfl
      · exact hl
      · exact .inl rfl
    cases hkind
    cases hw with
    | @string lead₂ m hl₂ hr =>
      have hm : m = n := by
        rw [← stringValue_quoted hl₂ m, ← stringValue_quoted hl n]
        exact hkeeps.string rfl
      subst hm
      show lead₂ ++ _ = lead' ++ _
      rw [hlead hl₂ hl' (by simpa using heq)]
  | @text n =>
    cases hkind
    cases hw with
    | @string lead₂ m hl₂ hr =>
      have hm : m = n := by
        rw [← stringValue_quoted hl₂ m, ← unquoteIdentifier_double (.inr (.inl ⟨rfl, rfl⟩)) n]
        exact hkeeps.text rfl rfl
      subst hm
      show lead₂ ++ _ = [] ++ _
      rw [hlead hl₂ (.inl rfl) (by simpa using heq)]
  | @name o q n _ _ ho =>
    cases hkind
    cases hw with
    | @ident o₂ q₂ m ho₂ hr =>
      have hm : m = Dialect.bareName n := by
        rw [← unquoteIdentifier_double ho₂ m, ← unquoteIdentifier_double ho n]
        exact hkeeps.name rfl rfl
      have ho₂' : o₂ = target.profile.quoteOpen := (List.cons.inj heq).1
      have hq₂ : q₂ = target.profile.quoteClose := by
        have htarget := nameQuotes target
        rcases ho₂ with ⟨h, rfl⟩ | ⟨h, rfl⟩ | ⟨h, rfl⟩ <;> subst h <;>
          rcases htarget with ⟨h, h'⟩ | ⟨h, h'⟩ | ⟨h, h'⟩ <;> rw [h'] <;> rw [← ho₂'] at h <;> cases h
      subst hm hq₂ ho₂'
      rfl
  | same hstring hident => exact hkeeps.value hstring hident

end Respelling

/-! ## Respelled expressions -/

variable (source target : Dialect)

theorem renderTokens_respelled (ts : List Token) :
    renderTokens (ts.map (respelled source target)) = renderTokensWith (respell source target) ts := by
  have hbehind : ∀ us : List Token, renderBehind Token.value (us.map (respelled source target)) =
      renderBehind (respell source target) us := by
    intro us
    induction us with
    | nil => rfl
    | cons u us ih =>
      rw [List.map_cons, renderBehind, renderBehind, ih]
      rfl
  cases ts with
  | nil => rfl
  | cons t ts => exact congrArg (respell source target t ++ ·) (hbehind ts)

theorem thinned_respelled {pos : Nat} {spaced : Bool} {s : Text} {ts : List Token} (h : Scanned pos spaced s ts)
    (hsp : spaced = false) :
    Thinned s (hideQuotes (renderBehind Token.value (ts.map (respelled source target)))) := by
  induction h with
  | done hg => exact .stop _
  | @token pos spaced g v r k ts hg hv h ih =>
    subst hsp
    have hrest := (respelling source target (t := ⟨k, v, pos + g.length, false || !g.isEmpty⟩) hv.rule).thinned (ih rfl)
    rw [List.map_cons, renderBehind, hideQuotes_append, hideQuotes_append]
    cases g with
    | nil => simpa [respelled, hideQuotes] using hrest
    | cons c g => simpa [respelled, hideQuotes] using Thinned.gap (c := ' ') (by decide) (c :: g) hrest

/-- Respelled tokens are read one by one exactly if each ends before the next. -/
theorem readsAll_respelled_iff {pos : Nat} {spaced : Bool} {s : Text} {ts : List Token}
    (h : Scanned pos spaced s ts) :
    ReadsAll [] (ts.map (respelled source target)) ↔ isParted (ts.map (respelled source target)) = true := by
  induction h with
  | done hg => exact ⟨fun _ => rfl, fun _ => trivial⟩
  | @token pos spaced g v r k ts hg hv h ih =>
    rw [List.map_cons, ReadsAll, isParted, Bool.and_eq_true, List.append_nil, ih, readsToken_iff,
      (respelling source target (t := ⟨k, v, _, _⟩) hv.rule).reads_iff hv.rule
        (thinned_respelled source target h rfl)]

/-- What a token stands for depends on its kind and its text only. -/
theorem forall₂_keeps_congr {ts us vs : List Token} (h : us.map Token.word = vs.map Token.word) :
    List.Forall₂ (Keeps source) ts us ↔ List.Forall₂ (Keeps source) ts vs := by
  have hword : ∀ us : List Token, List.Forall₂ (Keeps source) ts us ↔
      List.Forall₂ (fun t w => Keeps source t ⟨w.1, w.2, 0, false⟩) ts (us.map Token.word) := by
    intro us
    rw [List.forall₂_map_right_iff]
    constructor
    · exact fun h => h.imp fun t u h => ⟨h.kind, h.value, h.string, h.text, h.name⟩
    · exact fun h => h.imp fun t u h => ⟨h.kind, h.value, h.string, h.text, h.name⟩
  rw [hword us, hword vs, h]

theorem forall₂_keeps_respelled {pos : Nat} {spaced : Bool} {s : Text} {ts : List Token}
    (h : Scanned pos spaced s ts) : List.Forall₂ (Keeps source) ts (ts.map (respelled source target)) := by
  induction h with
  | done hg => exact .nil
  | @token pos spaced g v r k ts hg hv h ih =>
    exact .cons (respelling source target (t := ⟨k, v, _, _⟩) hv.rule).keeps ih

variable {source target}

/-- If what is read from a respelled token on stands for the same as the tokens did,
the first token read is the respelled one. -/
theorem reads_of_keeps {t : Token} {ts : List Token} {r r' : Text} {spaced : Bool}
    (ht : TokenRule r t.kind t.value) (hr : Thinned r (hideQuotes r'))
    (h : List.Forall₂ (Keeps source) (t :: ts) (scan spaced ((respelled source target t).value ++ r'))) :
    ReadsToken (respelled source target t).kind (respelled source target t).value r' ∧
      List.Forall₂ (Keeps source) ts (scan false r') := by
  have hrespell := respelling source target ht
  obtain ⟨k, v, x, hread, heq⟩ := hrespell.exists_reads ht hr
  rw [← heq, scan_token hread] at h
  cases h with
  | cons hkeeps hrest =>
    have hword := hrespell.unique hkeeps hread.rule heq
    obtain ⟨hkind, hvalue⟩ := Prod.mk.inj hword
    cases hkind
    cases hvalue
    cases List.append_cancel_left heq
    exact ⟨hread, hrest⟩

theorem readsAll_of_keeps {pos : Nat} {before : Bool} {s : Text} {ts : List Token} (hs : Scanned pos before s ts)
    {spaced : Bool} (h : List.Forall₂ (Keeps source) ts
      (scan spaced (renderBehind Token.value (ts.map (respelled source target))))) :
    ReadsAll [] (ts.map (respelled source target)) := by
  induction hs generalizing spaced with
  | done hg => trivial
  | @token pos before g v r k ts hg hv hs ih =>
    rw [List.map_cons, renderBehind, List.append_assoc] at h
    obtain ⟨spaced, h⟩ : ∃ spaced, List.Forall₂ (Keeps source) (⟨k, v, pos + g.length, before || !g.isEmpty⟩ :: ts)
        (scan spaced ((respelled source target ⟨k, v, pos + g.length, before || !g.isEmpty⟩).value ++
          renderBehind Token.value (ts.map (respelled source target)))) := by
      split at h
      · rw [List.singleton_append, scan_blank (by decide)] at h
        exact ⟨true, h⟩
      · exact ⟨spaced, h⟩
    obtain ⟨hread, hrest⟩ := reads_of_keeps hv.rule (thinned_respelled source target hs rfl) h
    rw [List.map_cons, ReadsAll, List.append_nil]
    exact ⟨hread, ih hrest⟩

variable (source target)

/-- An expression respelled for another dialect is read again as tokens that stand one
by one for the same exactly if each respelled token ends before what is written behind
it. -/
theorem keeps_iff_isParted (e : Text) :
    List.Forall₂ (Keeps source) (tokenize e) (tokenize (renderTokensWith (respell source target) (tokenize e))) ↔
      isParted ((tokenize e).map (respelled source target)) = true := by
  have hscanned := scanned_tokenize e
  generalize tokenize e = ts at hscanned ⊢
  rw [← readsAll_respelled_iff source target hscanned, ← renderTokens_respelled,
    ← forall₂_keeps_congr source (map_word_bare _)]
  constructor
  · intro h
    cases hscanned with
    | done hg => trivial
    | @token _ _ g v r k ts hg hv hs =>
      obtain ⟨hread, hrest⟩ := reads_of_keeps hv.rule (thinned_respelled source target hs rfl) h
      rw [List.map_cons, ReadsAll, List.append_nil]
      exact ⟨hread, readsAll_of_keeps hs hrest⟩
  · intro hreads
    rw [bare_tokenize_renderTokens hreads, forall₂_keeps_congr source (map_word_shapes _)]
    exact forall₂_keeps_respelled source target hscanned

/-- Strings that MySQL joins without a space become one. -/
example : isParted ((tokenize "'a'\"b\"".toList).map (respelled .mysql .postgresql)) = false := by decide +kernel

example : isParted ((tokenize "'a' \"b\"".toList).map (respelled .mysql .postgresql)) = true := by decide +kernel

end Expression

end TableDialects
