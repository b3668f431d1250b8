import TableDialects.Proofs.Token.Printed
import TableDialects.Proofs.Token.Slice

/- What the clean-up leaves of lines of printed tokens: all of them. Every rule
   that keeps quoted text finds nothing to replace (`Rule.Idle`), and the rule
   that does not, for BOOLEAN with a width, changes only string literals, each to
   another literal (`Line.widen`). -/
namespace TableDialects

namespace Rule

/-- The rule finds nothing to replace in the text, behind the character `b`,
outside quoted text. -/
inductive Idle (rule : Rule) : Option Char → Text → Prop
  | nil {b : Option Char} : Idle rule b []
  | quoted {b : Option Char} {s part rest : Text} (hq : Text.quoted? s = some (part, rest))
    (h : Idle rule part.getLast? rest) : Idle rule b s
  | copied {b : Option Char} {c : Char} {s : Text} (hq : Text.quoted? (c :: s) = none)
    (hrule : rule b (c :: s) = none) (h : Idle rule (some c) s) : Idle rule b (c :: s)

theorem apply_copied {rule : Rule} {keep : Bool} {b : Option Char} {c : Char} {s : Text}
    (hq : keep = false ∨ Text.quoted? (c :: s) = none) (hrule : rule b (c :: s) = none) :
    rule.apply keep b (c :: s) = c :: rule.apply keep (some c) s := by
  have hnone : (if keep then Text.quoted? (c :: s) else none) = none := by
    rcases hq with rfl | hq
    · rfl
    · rw [hq]
      split <;> rfl
  rw [apply]
  split
  · rename_i hsome
    rw [hnone] at hsome
    cases hsome
  · rw [hrule]

theorem apply_quoted {rule : Rule} {b : Option Char} {s part rest : Text}
    (hq : Text.quoted? s = some (part, rest)) :
    rule.apply true b s = part ++ rule.apply true part.getLast? rest := by
  cases s with
  | nil => cases hq
  | cons c s =>
    rw [apply]
    split
    · rename_i hsome
      rw [if_pos rfl, hq] at hsome
      cases hsome
      rfl
    · rename_i hnone
      rw [if_pos rfl, hq] at hnone
      cases hnone

theorem Idle.apply_eq {rule : Rule} {b : Option Char} {s : Text} (h : Idle rule b s) :
    rule.apply true b s = s := by
  induction h with
  | nil => rw [apply]
  | quoted hq h ih => rw [apply_quoted hq, ih, Text.quoted?_append hq]
  | copied hq hrule h ih => rw [apply_copied (.inr hq) hrule, ih]

theorem quoted?_eq_none {c : Char} (hc : Text.closerOf c = none) (s : Text) :
    Text.quoted? (c :: s) = none := by
  simp [Text.quoted?, hc]

/-- At no place of `v`, in front of `r` and behind the character `b`, the rule
finds something to replace. -/
def Silent (rule : Rule) (r : Text) : Option Char → Text → Prop
  | _, [] => True
  | b, c :: v => rule b (c :: (v ++ r)) = none ∧ Silent rule r (some c) v

theorem Silent.idle {rule : Rule} {r v : Text} {b : Option Char} (h : Silent rule r b v)
    (hv : ∀ c ∈ v, Text.closerOf c = none) (hr : ∀ b, Idle rule b r) : Idle rule b (v ++ r) := by
  induction v generalizing b with
  | nil => exact hr b
  | cons c v ih =>
    exact .copied (quoted?_eq_none (hv c List.mem_cons_self) _) h.1
      (ih h.2 fun d hd => hv d (List.mem_cons_of_mem c hd))

theorem silent_of_forall {rule : Rule} {r v : Text}
    (h : ∀ c ∈ v, ∀ b s, rule b (c :: s) = none) (b : Option Char) : Silent rule r b v := by
  induction v generalizing b with
  | nil => trivial
  | cons c v ih =>
    exact ⟨h c List.mem_cons_self b _, ih (fun d hd => h d (List.mem_cons_of_mem c hd)) (some c)⟩

theorem silent_append {rule : Rule} {r v w : Text} {b : Option Char}
    (hv : Silent rule (w ++ r) b v) (hw : ∀ b, Silent rule r b w) : Silent rule r b (v ++ w) := by
  induction v generalizing b with
  | nil => exact hw b
  | cons c v ih =>
    refine ⟨?_, ih hv.2⟩
    show rule b (c :: ((v ++ w) ++ r)) = none
    rw [List.append_assoc]
    exact hv.1

/-- A rule that finds nothing at the marks, in numbers and at the quotes of
strings. -/
structure IsGentle (rule : Rule) : Prop where
  mark : ∀ c ∈ breakChars, Text.isBlank c = false → ∀ b s, rule b (c :: s) = none
  digit : ∀ c, Text.isDigit c = true → ∀ b s, rule b (c :: s) = none
  scale : ∀ c ∈ ['.', '+', 'e', 'E'], ∀ b s, rule b (c :: s) = none
  minus : ∀ c, Text.isDigit c = true → ∀ b s, rule b ('-' :: c :: s) = none
  national : ∀ c ∈ ['N', 'n'], ∀ b s, rule b (c :: '\'' :: s) = none

theorem closerOf_of_isDigit {c : Char} (h : Text.isDigit c = true) : Text.closerOf c = none := by
  have hne : ∀ {q : Char}, Text.isDigit q = false → c ≠ q := by
    rintro q hq rfl
    rw [h] at hq
    cases hq
  simp [Text.closerOf, hne (q := '\'') (by decide), hne (q := '"') (by decide),
    hne (q := '`') (by decide), hne (q := '[') (by decide)]

theorem closerOf_of_isPlainChar {c : Char} (h : isPlainChar c = true) : Text.closerOf c = none :=
  of_isNameChar (p := fun c => Text.closerOf c = none) (by decide +kernel)
    (isNameChar_of_isPlainChar h)

namespace IsGentle
variable {rule : Rule}

theorem silent_digits (h : IsGentle rule) {ds r : Text} (hd : ∀ c ∈ ds, Text.isDigit c = true)
    (b : Option Char) : Silent rule r b ds :=
  silent_of_forall (fun c hc => h.digit c (hd c hc)) b

theorem silent_mantissa (h : IsGentle rule) {v r : Text} (hv : Scan.IsMantissa v)
    (b : Option Char) : Silent rule r b v := by
  refine silent_of_forall (fun c hc => ?_) b
  have hpoint := h.scale '.' (by decide)
  cases hv with
  | whole hne hd => exact h.digit c (hd c hc)
  | point hne hd he =>
    rcases List.mem_append.1 hc with hc | hc
    · exact h.digit c (hd c hc)
    · rcases List.mem_cons.1 hc with rfl | hc
      · exact hpoint
      · exact h.digit c (he c hc)

theorem silent_number (h : IsGentle rule) {v r : Text} (hv : Scan.ReadsNumber v [])
    (b : Option Char) : Silent rule r b v := by
  cases hv with
  | plain hv => exact h.silent_mantissa hv b
  | @scaled v lead ds _ hv hl hne hd =>
    refine silent_append (h.silent_mantissa hv b) fun b => ?_
    obtain ⟨e, he, hlead⟩ := hl
    have hexp : ∀ b s, rule b (e :: s) = none := by
      rcases he with rfl | rfl <;> exact h.scale _ (by decide)
    have hdigits := h.silent_digits (r := r) hd
    rcases hlead with rfl | rfl | rfl
    · exact ⟨hexp b _, hdigits _⟩
    · exact ⟨hexp b _, h.scale '+' (by decide) _ _, hdigits _⟩
    · -- The minus sign is followed by a digit, not by another one.
      cases ds with
      | nil => exact absurd rfl hne
      | cons d ds => exact ⟨hexp b _, h.minus d (hd d List.mem_cons_self) _ _, hdigits _⟩

theorem closerOf_number {v : Text} (hv : Scan.ReadsNumber v []) :
    ∀ c ∈ v, Text.closerOf c = none := by
  intro c hc
  rcases ReadsNumber.chars hv c hc with hd | hd
  · exact closerOf_of_isDigit hd
  · clear hc
    revert c
    decide

/-- The rule finds nothing in a printed token, if it finds nothing in words. -/
theorem idle_token (h : IsGentle rule) {t : Token} {r : Text} (ht : t.Printed)
    (hbreak : t.isMark = true ∨ Breaks r)
    (hword : t.kind = .word → ∀ b, Silent rule r b t.value) (hr : ∀ b, Idle rule b r)
    (b : Option Char) : Idle rule b (t.value ++ r) := by
  obtain ⟨kind, value, start, spaced⟩ := t
  have hquoted : ∀ {o q : Char} {body : Text}, Text.closerOf o = some q → isBreak q = false →
      QuotedBody q body → Breaks r → ∀ b, Idle rule b (o :: (body ++ r)) := by
    intro o q body ho hq hbody hbreaks b
    have hclose := hbody.closeQuote? (r := r) (runsOn_of_stops (hbreaks.stops fun c hc => ne_of_isBreak hq hc))
    have hpart : Text.quoted? (o :: (body ++ r)) = some (o :: body, r) := by
      simp [Text.quoted?, ho, hclose]
    exact .quoted hpart (hr _)
  cases kind with
  | word =>
    exact (hword rfl b).idle (fun c hc => closerOf_of_isPlainChar (ht.plain rfl c hc)) hr
  | ident =>
    obtain ⟨d, n, hn, hv⟩ := ht
    obtain ⟨hquote, hnot⟩ := quote_plainName d hn
    rw [show value = d.quote n from hv, hquote]
    exact hquoted (by cases d <;> rfl) (by cases d <;> decide) (quotedBody_append hnot)
      (hbreak.resolve_left Bool.false_ne_true) b
  | string =>
    obtain ⟨⟨lead, body, hv, hlead, hbody⟩, -⟩ := ht
    have hbreaks := hbreak.resolve_left Bool.false_ne_true
    rw [show value = _ from hv]
    have hopen := hquoted (o := '\'') rfl (by decide) hbody hbreaks
    rcases hlead with rfl | rfl | rfl
    · exact hopen b
    · exact .copied (quoted?_eq_none (by decide) _) (h.national 'N' (by decide) _ _) (hopen _)
    · exact .copied (quoted?_eq_none (by decide) _) (h.national 'n' (by decide) _ _) (hopen _)
  | number => exact (h.silent_number ht b).idle (closerOf_number ht) hr
  | punct =>
    obtain ⟨c, hc, hv⟩ := ht
    rw [show value = [c] from hv]
    have hfacts : c ∈ breakChars ∧ Text.isBlank c = false ∧ Text.closerOf c = none := by
      rcases hc with rfl | rfl | rfl | rfl <;> decide
    exact .copied (quoted?_eq_none hfacts.2.2 _) (h.mark c hfacts.1 hfacts.2.1 _ _) (hr _)
  | op =>
    rw [show value = ['='] from ht]
    exact .copied (quoted?_eq_none (by decide) _) (h.mark '=' (by decide) (by decide) _ _) (hr _)

end IsGentle
/-! ## Lines -/

/-- Behind the text nothing goes on: it starts with a break, and what follows
its white space is no comma, no parenthesis and no word in V. -/
structure Calm (r : Text) : Prop where
  breaks : Breaks r
  next : ∀ c ∈ (r.dropWhile Text.isBlank).head?,
    c ≠ ',' ∧ c ≠ '(' ∧ Text.sameLetter 'V' c = false

/-- A rule that also finds nothing in the words of legible lists and in the white
space between their tokens. -/
structure IsPassive (rule : Rule) : Prop extends IsGentle rule where
  blank : ∀ c ∈ [' ', '\n'], ∀ b s, (∀ d ∈ (s.dropWhile Text.isBlank).head?, d ≠ ',') →
    rule b (c :: s) = none
  word : ∀ {t : Token} {ts : List Token} {r : Text}, Legible (t :: ts) → t.kind = .word →
    Calm r → ∀ b, Silent rule (renderBehind Token.value ts ++ r) b t.value

/-- A comma and a parenthesis at the start of a token are the whole token. -/
theorem isPunct_of_head {t : Token} (h : t.Printed) {c : Char} (hc : c = ',' ∨ c = '(')
    (hhead : c ∈ t.value.head?) : t.isPunct [c] = true := by
  by_cases hw : t.kind = .word
  · have := h.plain hw c (List.mem_of_mem_head? hhead)
    rcases hc with rfl | rfl <;> exact absurd this (by decide)
  · obtain ⟨d, w, hv, hd⟩ := h.head hw
    rw [hv] at hhead
    cases hhead
    rcases hd with hd | hd | ⟨-, hd⟩
    · rcases hc with rfl | rfl <;> exact absurd hd (by decide)
    · rcases hc with rfl | rfl <;> exact absurd hd (by decide)
    · exact hd

theorem stops_blank_value {t : Token} (h : t.Printed) (r : Text) :
    (t.value ++ r).dropWhile Text.isBlank = t.value ++ r := by
  have hstops : Stops Text.isBlank (t.value ++ r) := (h.reads (.inr breaks_nil)).stops_blank r
  simpa using hstops.dropWhile_append (v := []) (by simp)

theorem follows_comma {t u : Token} (h : t.follows u = true) (hs : u.spaced = true) :
    u.isPunct [','] = false := by
  unfold Token.follows at h
  simp only [hs, Bool.and_true, Bool.and_eq_true, Bool.not_eq_true'] at h
  exact h.1.2

namespace IsPassive
variable {rule : Rule}

theorem idle_token (h : IsPassive rule) {t : Token} {ts : List Token} {r : Text}
    (ht : Legible (t :: ts)) (hr : Calm r)
    (hidle : ∀ b, Idle rule b (renderBehind Token.value ts ++ r)) (b : Option Char) :
    Idle rule b (t.value ++ (renderBehind Token.value ts ++ r)) := by
  refine h.toIsGentle.idle_token ht.printed ?_ (fun hw => h.word ht hw hr) hidle b
  cases hm : t.isMark with
  | true => exact .inl rfl
  | false => exact .inr (ht.breaks_behind hm hr.breaks)

theorem idle_behind (h : IsPassive rule) {t : Token} {ts : List Token} {r : Text}
    (ht : Legible (t :: ts)) (hr : Calm r) (hidle : ∀ b, Idle rule b r) :
    ∀ b, Idle rule b (renderBehind Token.value ts ++ r) := by
  induction ts generalizing t with
  | nil => exact hidle
  | cons u ts ih =>
    intro b
    have htoken := h.idle_token ht.tail hr (ih ht.tail)
    rw [renderBehind, List.append_assoc, List.append_assoc]
    cases hs : u.spaced with
    | false => exact htoken b
    | true =>
      rw [if_pos rfl, List.singleton_append]
      refine .copied (quoted?_eq_none (by decide) _) (h.blank ' ' (by decide) _ _ ?_) (htoken _)
      rintro c hc rfl
      have hcomma := follows_comma ht.2.1 hs
      have hhead : ',' ∈ u.value.head? := by
        rw [stops_blank_value ht.tail.printed] at hc
        obtain ⟨d, w, hv, -⟩ := ht.tail.printed.reads (r := []) (.inr breaks_nil)
        rw [hv] at hc ⊢
        exact hc
      rw [isPunct_of_head ht.tail.printed (.inl rfl) hhead] at hcomma
      cases hcomma

theorem idle_blanks (h : IsPassive rule) {n : Nat} {r : Text}
    (hr : ∀ d ∈ (r.dropWhile Text.isBlank).head?, d ≠ ',') (hidle : ∀ b, Idle rule b r)
    (b : Option Char) : Idle rule b (List.replicate n ' ' ++ r) := by
  have hdrop : ∀ n, (List.replicate n ' ' ++ r).dropWhile Text.isBlank = r.dropWhile Text.isBlank := by
    intro n
    induction n with
    | zero => rfl
    | succ n ih => rw [List.replicate_succ, List.cons_append, List.dropWhile_cons_of_pos (by decide), ih]
  induction n generalizing b with
  | zero => exact hidle b
  | succ n ih =>
    rw [List.replicate_succ, List.cons_append]
    exact .copied (quoted?_eq_none (by decide) _)
      (h.blank ' ' (by decide) _ _ (by rw [hdrop]; exact hr)) (ih _)

theorem idle_line (h : IsPassive rule) {l : Line} {r : Text} (hl : l.IsReadable) (hr : Calm r)
    (hidle : ∀ b, Idle rule b r) (b : Option Char) : Idle rule b (l.text ++ r) := by
  obtain ⟨indent, tokens⟩ := l
  obtain ⟨hleg, t, ts, rfl, -, hstart⟩ := hl
  rw [Line.text, List.append_assoc]
  have htext : renderTokens (t :: ts) ++ r = t.value ++ (renderBehind Token.value ts ++ r) :=
    List.append_assoc _ _ _
  refine h.idle_blanks ?_ (fun b => ?_) b
  · show ∀ d ∈ ((renderTokens (t :: ts) ++ r).dropWhile Text.isBlank).head?, d ≠ ','
    rw [htext, stops_blank_value (Legible.printed hleg)]
    obtain ⟨c, w, hv, -⟩ := (Legible.printed hleg).reads (r := []) (.inr breaks_nil)
    rw [hv]
    rintro d hd rfl
    cases hd
    rw [Line.isStart, hv] at hstart
    cases hstart
  · show Idle rule b (renderTokens (t :: ts) ++ r)
    rw [htext]
    exact h.idle_token hleg hr (h.idle_behind hleg hr hidle) b

end IsPassive

theorem calm_linesBelow {ls : List Line} (h : ∀ l ∈ ls, l.IsReadable) : Calm (linesBelow ls) := by
  refine ⟨breaks_linesBelow ls, ?_⟩
  cases ls with
  | nil => exact fun c hc => nomatch hc
  | cons l ls =>
    obtain ⟨indent, tokens⟩ := l
    obtain ⟨hleg, t, ts, rfl, -, hstart⟩ := h _ List.mem_cons_self
    have hdrop : (linesBelow (⟨indent, t :: ts⟩ :: ls)).dropWhile Text.isBlank =
        t.value ++ (renderBehind Token.value ts ++ linesBelow ls) := by
      have hblanks : ∀ c ∈ '\n' :: List.replicate indent ' ', Text.isBlank c = true := by
        intro c hc
        rcases List.mem_cons.1 hc with rfl | hc
        · decide
        · rw [List.eq_of_mem_replicate hc]
          decide
      have hstops : Stops Text.isBlank (t.value ++ (renderBehind Token.value ts ++ linesBelow ls)) :=
        ((Legible.printed hleg).reads (.inr breaks_nil)).stops_blank _
      rw [← hstops.dropWhile_append hblanks]
      simp [linesBelow, Line.text, renderTokens, renderTokensWith]
    rw [hdrop]
    obtain ⟨c, w, hv, -⟩ := (Legible.printed hleg).reads (r := []) (.inr breaks_nil)
    rw [hv]
    intro d hd
    cases hd
    rw [Line.isStart, hv] at hstart
    simpa [and_assoc] using hstart

theorem calm_nil : Calm [] := ⟨breaks_nil, fun _ hc => nomatch hc⟩

namespace IsPassive
variable {rule : Rule}

theorem idle_linesBelow (h : IsPassive rule) {ls : List Line} (hls : ∀ l ∈ ls, l.IsReadable)
    (b : Option Char) : Idle rule b (linesBelow ls) := by
  induction ls generalizing b with
  | nil => exact .nil
  | cons l ls ih =>
    have hrest : ∀ m ∈ ls, m.IsReadable := fun m hm => hls m (List.mem_cons_of_mem l hm)
    have hcalm := calm_linesBelow hls
    rw [linesBelow, List.flatMap_cons] at hcalm ⊢
    refine .copied (quoted?_eq_none (by decide) _) (h.blank '\n' (by decide) _ _ ?_)
      (h.idle_line (hls l List.mem_cons_self) (calm_linesBelow hrest) (ih hrest) _)
    intro d hd
    refine (hcalm.next d ?_).1
    rw [List.cons_append, List.dropWhile_cons_of_pos (by decide)]
    exact hd

theorem apply_linesText (h : IsPassive rule) {ls : List Line} (hls : ∀ l ∈ ls, l.IsReadable) :
    rule.apply true none (linesText ls) = linesText ls := by
  refine Idle.apply_eq ?_
  cases ls with
  | nil => exact .nil
  | cons l ls =>
    have hrest : ∀ m ∈ ls, m.IsReadable := fun m hm => hls m (List.mem_cons_of_mem l hm)
    rw [linesText_cons]
    exact h.idle_line (hls l List.mem_cons_self) (calm_linesBelow hrest) (h.idle_linesBelow hrest) _

theorem apply_text (h : IsPassive rule) {l : Line} (hl : l.IsReadable) :
    rule.apply true none l.text = l.text := by
  have := h.idle_line hl calm_nil (fun _ => .nil) none
  rw [List.append_nil] at this
  exact this.apply_eq

end IsPassive
/-- A rule that looks for one character, which printed tokens do not have outside
quotes, apart from the sign of an exponent. -/
theorem isPassive_of_start {rule : Rule} {q : Char}
    (hrule : ∀ c, c ≠ q → ∀ b s, rule b (c :: s) = none)
    (hminus : ∀ c, Text.isDigit c = true → ∀ b s, rule b ('-' :: c :: s) = none)
    (hplain : isPlainChar q = false) (hdigit : Text.isDigit q = false) (hbreak : q ∉ breakChars)
    (hscale : q ∉ ['.', '+', 'e', 'E', 'N', 'n']) : IsPassive rule where
  mark c hc _ := hrule c fun h => hbreak (h ▸ hc)
  digit c hc := hrule c (Text.ne_of_isDigit hc hdigit)
  scale c hc := hrule c fun h => hscale (h ▸ List.mem_append_left ['N', 'n'] hc)
  minus := hminus
  national c hc b s := hrule c (fun h => hscale (h ▸ List.mem_append_right ['.', '+', 'e', 'E'] hc)) b _
  blank c hc b s _ := hrule c (by
    rintro rfl
    refine hbreak ?_
    rcases List.mem_cons.1 hc with rfl | hc
    · decide
    · rw [List.mem_singleton.1 hc]
      decide) b s
  word {t ts r} ht hw _ b := by
    refine silent_of_forall (fun c hc => hrule c ?_) b
    rintro rfl
    rw [ht.printed.plain hw c hc] at hplain
    cases hplain

theorem isPassive_blockComment : IsPassive Cleanup.blockComment := by
  have hrule : ∀ c, c ≠ '/' → ∀ b s, Cleanup.blockComment b (c :: s) = none := by
    intro c hc b s
    have hnone : Scan.blockComment? (c :: s) = none := by
      unfold Scan.blockComment?
      split
      · rename_i heq
        exact absurd (List.cons.inj heq).1 hc
      · rfl
    unfold Cleanup.blockComment
    rw [hnone]
  exact isPassive_of_start hrule (fun c _ b s => hrule '-' (by decide) b _) (by decide) (by decide)
    (by decide) (by decide)

theorem isPassive_lineComment : IsPassive Cleanup.lineComment := by
  have hrule : ∀ c, c ≠ '-' → ∀ b s, Cleanup.lineComment b (c :: s) = none := by
    intro c hc b s
    have hnone : Text.after? ['-', '-'] (c :: s) = none := by
      rw [Text.after?, if_neg (Ne.symm hc)]
    unfold Cleanup.lineComment
    rw [show "--".toList = ['-', '-'] from rfl, hnone]
  refine isPassive_of_start hrule (fun c hc b s => ?_) (by decide) (by decide) (by decide) (by decide)
  have hne : '-' ≠ c := Ne.symm (Text.ne_of_isDigit hc (by decide))
  have hnone : Text.after? ['-', '-'] ('-' :: c :: s) = none := by
    rw [Text.after?, if_pos rfl, Text.after?, if_neg hne]
  unfold Cleanup.lineComment
  rw [show "--".toList = ['-', '-'] from rfl, hnone]

theorem isPassive_spaceBeforeComma : IsPassive Cleanup.spaceBeforeComma := by
  have hrule : ∀ c, Text.isBlank c = false → ∀ b s, Cleanup.spaceBeforeComma b (c :: s) = none := by
    intro c hc b s
    simp [Cleanup.spaceBeforeComma, Rule.blanks?, hc]
  refine ⟨⟨fun c _ hb => hrule c hb, fun c hc => hrule c ?_, fun c hc => hrule c ?_,
    fun c _ b s => hrule '-' (by decide) b _, fun c hc b s => hrule c ?_ b _⟩, ?_, ?_⟩
  · cases hb : Text.isBlank c with
    | false => rfl
    | true =>
      rw [Text.isDigit_of_isBlank hb] at hc
      cases hc
  · revert c
    decide
  · clear b s
    revert c
    decide
  · intro c hc b s hnext
    have hblank : Text.isBlank c = true := by
      revert c
      decide
    have hcomma : Rule.char? ',' (s.dropWhile Text.isBlank) = none := by
      cases hdrop : s.dropWhile Text.isBlank with
      | nil => rfl
      | cons d r =>
        rw [hdrop] at hnext
        rw [Rule.char?, if_neg (Ne.symm (hnext d rfl))]
    simp [Cleanup.spaceBeforeComma, Rule.blanks?, hblank, hcomma]
  · intro t ts r ht hw _ b
    exact silent_of_forall (fun c hc => hrule c (facts_of_isPlainChar (ht.printed.plain hw c hc)).2.1) b

/-! ## The space between a type and its parameters -/

/-- A word that is matched at the start of `w`, in front of a break, ends inside
`w` or at its end. -/
theorem afterWord?_append {x w r r' : Text}
    (hx : ∀ l ∈ x, ∀ c ∈ breakChars, Text.sameLetter l c = false) (hr : Breaks r)
    (h : Text.afterWord? x (w ++ r) = some r') :
    (∃ c v, c ∈ w ∧ r' = c :: v) ∨ (Text.afterWord? x w = some [] ∧ r' = r) := by
  induction w generalizing x with
  | nil =>
    cases x with
    | nil => exact .inr ⟨rfl, (Option.some.inj h).symm⟩
    | cons l x =>
      cases r with
      | nil => cases h
      | cons c r =>
        have hc := hx l List.mem_cons_self c (List.contains_iff_mem.1 (breaks_cons.1 hr))
        rw [List.nil_append, Text.afterWord?, hc] at h
        cases h
  | cons c w ih =>
    cases x with
    | nil => exact .inl ⟨c, w ++ r, List.mem_cons_self, (Option.some.inj h).symm⟩
    | cons l x =>
      rw [List.cons_append, Text.afterWord?] at h
      rw [Text.afterWord?]
      split at h
      · rename_i hl
        rw [if_pos hl]
        rcases ih (fun l hl => hx l (List.mem_cons_of_mem _ hl)) h with ⟨d, v, hd, hv⟩ | hend
        · exact .inl ⟨d, v, List.mem_cons_of_mem c hd, hv⟩
        · exact .inr hend
      · cases h

theorem phrase?_eq_none {w : String} {words : List String} {s : Text}
    (h : Text.afterWord? w s = none) : phrase? (w :: words) s = none := by
  cases words with
  | nil => exact h
  | cons v words => simp [phrase?, h]

theorem phrase?_pair (v w : String) (s : Text) :
    phrase? [v, w] s = ((Text.afterWord? v s).bind blanks?).bind (phrase? [w]) := by
  cases h : (Text.afterWord? v s).bind blanks? <;> simp [phrase?, h]

theorem typeBeforeParams?_eq_none {s : Text} (h : ∀ words ∈ Cleanup.parameterTypes,
    ∀ r, phrase? words s = some r → (blanks? r).bind (char? '(') = none) :
    Cleanup.typeBeforeParams? s = none := by
  unfold Cleanup.typeBeforeParams?
  rw [List.findSome?_eq_none_iff]
  intro words hw
  cases hp : phrase? words s with
  | none => rfl
  | some r =>
    dsimp only
    rw [h words hw r hp]

theorem spaceBeforeParams_eq_none {c : Char} (hc : ∀ words ∈ Cleanup.parameterTypes,
    ∀ w ∈ words.head?, ∀ l ∈ w.toList.head?, Text.sameLetter l c = false) (b : Option Char) (s : Text) :
    Cleanup.spaceBeforeParams b (c :: s) = none := by
  have hnone : Cleanup.typeBeforeParams? (c :: s) = none := by
    refine typeBeforeParams?_eq_none fun words hw r hp => ?_
    cases words with
    | nil => exact absurd hw (by decide)
    | cons w words =>
      have hfirst := hc _ hw w rfl
      have hne : w.toList ≠ [] := by
        have : ∀ words ∈ Cleanup.parameterTypes, ∀ w ∈ words.head?, w.toList ≠ [] := by decide +kernel
        exact this _ hw w rfl
      have : Text.afterWord? w (c :: s) = none := by
        cases hl : w.toList with
        | nil => exact absurd hl hne
        | cons l x =>
          rw [hl] at hfirst
          rw [Text.afterWord?, hfirst l rfl]
          rfl
      rw [phrase?_eq_none this] at hp
      cases hp
  unfold Cleanup.spaceBeforeParams
  rw [hnone]
  split <;> rfl

theorem follows_open {t u : Token} (h : t.follows u = true) (ho : u.isOpen = true) :
    if u.spaced then t.endsType = false else t.spells "BOOLEAN" = false := by
  unfold Token.follows at h
  simp only [ho, Bool.true_and, Bool.and_eq_true, Bool.not_eq_true'] at h
  cases hs : u.spaced with
  | true => simpa [hs] using h.2
  | false => simpa [hs] using h.2

/-- Behind a word that may end a type no parenthesis follows white space. -/
theorem no_open_behind {t : Token} {ts : List Token} {r : Text} (h : Legible (t :: ts))
    (hr : Calm r) (he : t.endsType = true) :
    (blanks? (renderBehind Token.value ts ++ r)).bind (char? '(') = none := by
  have hchar : ∀ {s : Text}, '(' ∉ s.head? → char? '(' s = none := by
    intro s hs
    cases s with
    | nil => rfl
    | cons c s => rw [char?, if_neg fun h => hs (by rw [h]; rfl)]
  cases ts with
  | nil =>
    show (blanks? r).bind (char? '(') = none
    cases r with
    | nil => rfl
    | cons c r =>
      rw [blanks?]
      split
      · rename_i hc
        refine hchar fun hin => (hr.next '(' ?_).2.1 rfl
        rw [List.dropWhile_cons_of_pos hc]
        exact hin
      · rfl
  | cons u ts =>
    have hu := h.tail.printed
    obtain ⟨c, w, hv, -⟩ := hu.reads (r := []) (.inr breaks_nil)
    have hblank : Text.isBlank c = false := by
      have hstops := (hu.reads (r := []) (.inr breaks_nil)).stops_blank []
      rw [hv] at hstops
      exact stops_cons.1 hstops
    rw [renderBehind, List.append_assoc, List.append_assoc]
    cases hs : u.spaced with
    | false =>
      rw [if_neg Bool.false_ne_true, List.nil_append, hv, List.cons_append, blanks?, hblank]
      rfl
    | true =>
      rw [if_pos rfl, List.singleton_append, blanks?, if_pos (by decide), Option.bind_some,
        stops_blank_value hu]
      refine hchar fun hin => ?_
      have hhead : '(' ∈ u.value.head? := by
        rw [hv] at hin ⊢
        exact hin
      have hopen := follows_open h.2.1 (isPunct_of_head hu (.inr rfl) hhead)
      rw [hs, if_pos rfl, he] at hopen
      cases hopen

theorem sameLetter_break : ∀ words ∈ Cleanup.parameterTypes, ∀ w ∈ words, ∀ l ∈ w.toList,
    ∀ c ∈ breakChars, Text.sameLetter l c = false := by decide +kernel

theorem endsType_of_afterWord? {t : Token} {words : List String} {w : String}
    (hwords : words ∈ Cleanup.parameterTypes) (hlast : words.getLast? = some w)
    (hk : t.kind = .word) (h : Text.afterWord? w t.value = some []) : t.endsType = true := by
  unfold Token.endsType
  rw [List.any_eq_true]
  refine ⟨words, hwords, ?_⟩
  rw [hlast]
  simp [Token.spells, hk, h]

/-- A one-word type at the start of a word is not followed by white space and a
parenthesis. -/
theorem no_open_behind_word {t : Token} {ts : List Token} {r r' : Text} {words : List String}
    {w : String} (h : Legible (t :: ts)) (hk : t.kind = .word) (hr : Calm r)
    (hwords : words ∈ Cleanup.parameterTypes) (hlast : words.getLast? = some w)
    (hafter : Text.afterWord? w (t.value ++ (renderBehind Token.value ts ++ r)) = some r') :
    (blanks? r').bind (char? '(') = none := by
  have hm : t.isMark = false := by simp [Token.isMark, hk]
  have hletters := sameLetter_break words hwords w (List.mem_of_getLast? hlast)
  rcases afterWord?_append hletters (h.breaks_behind hm hr.breaks) hafter with
    ⟨c, v, hc, rfl⟩ | ⟨hend, rfl⟩
  · rw [blanks?, (facts_of_isPlainChar (h.printed.plain hk c hc)).2.1]
    rfl
  · exact no_open_behind h hr (endsType_of_afterWord? hwords hlast hk hend)

theorem isWordChar_of_isPlainChar {c : Char} (h : isPlainChar c = true) :
    Text.isWordChar c = true :=
  Text.of_ascii (p := fun c => isPlainChar c = true → Text.isWordChar c = true)
    (by decide) (isPlainChar_ascii h) h

/-- A rule that asks for a word boundary finds nothing inside a word. -/
theorem silent_inside {rule : Rule} (hrule : ∀ b s, Text.atBoundary b s = false → rule b s = none)
    {r w : Text} {c : Char} (hc : isPlainChar c = true) (hw : ∀ d ∈ w, isPlainChar d = true) :
    Silent rule r (some c) w := by
  induction w generalizing c with
  | nil => trivial
  | cons d w ih =>
    have hd := hw d List.mem_cons_self
    refine ⟨hrule _ _ ?_, ih hd fun e he => hw e (List.mem_cons_of_mem d he)⟩
    simp [Text.atBoundary, isWordChar_of_isPlainChar hc, isWordChar_of_isPlainChar hd]

/-- The same of a whole word, if the rule finds nothing at its start. -/
theorem silent_word {rule : Rule} (hrule : ∀ b s, Text.atBoundary b s = false → rule b s = none)
    {t : Token} {r : Text} (ht : t.Printed) (hk : t.kind = .word)
    (hstart : ∀ b, rule b (t.value ++ r) = none) (b : Option Char) : Silent rule r b t.value := by
  have hplain := ht.plain hk
  cases hv : t.value with
  | nil => trivial
  | cons c w =>
    rw [hv] at hstart hplain
    exact ⟨hstart b, silent_inside hrule (hplain c List.mem_cons_self) fun d hd =>
      hplain d (List.mem_cons_of_mem c hd)⟩

theorem sameLetter_V_of_head {t : Token} (h : t.Printed) (hk : t.kind ≠ .word) (r : Text) :
    ∃ c w, t.value ++ r = c :: w ∧ Text.sameLetter 'V' c = false := by
  obtain ⟨c, w, hv, hc⟩ := h.head hk
  refine ⟨c, w ++ r, by rw [hv]; rfl, ?_⟩
  rcases hc with hc | hc | ⟨hc, -⟩
  · exact Text.sameLetter_of_isDigit (by decide) hc
  · clear hv
    revert c
    decide
  · clear hv
    revert c
    decide

/-- VARYING behind a token and white space is not followed by white space and a
parenthesis. -/
theorem no_open_behind_varying {t : Token} {ts : List Token} {r r' : Text} (h : Legible (t :: ts)) (hr : Calm r)
    (hp : (blanks? (renderBehind Token.value ts ++ r)).bind (phrase? ["VARYING"]) = some r') :
    (blanks? r').bind (char? '(') = none := by
  have hV : ∀ {c : Char} {s : Text}, Text.sameLetter 'V' c = false →
      phrase? ["VARYING"] (c :: s) = none := by
    intro c s hc
    exact if_neg (Bool.eq_false_iff.1 hc)
  cases ts with
  | nil =>
    rw [renderBehind, List.nil_append] at hp
    cases r with
    | nil => cases hp
    | cons c r =>
      rw [blanks?] at hp
      cases hb : Text.isBlank c with
      | false => rw [hb] at hp; cases hp
      | true =>
        have hnext := hr.next
        rw [List.dropWhile_cons_of_pos hb] at hnext
        rw [hb, if_pos rfl, Option.bind_some] at hp
        cases hdrop : r.dropWhile Text.isBlank with
        | nil => rw [hdrop] at hp; cases hp
        | cons d s =>
          rw [hdrop] at hp hnext
          rw [hV (hnext d rfl).2.2] at hp
          cases hp
  | cons u ts =>
    have hu := h.tail.printed
    rw [renderBehind, List.append_assoc, List.append_assoc] at hp
    cases hs : u.spaced with
    | false =>
      obtain ⟨c, w, hv, -⟩ := hu.reads (r := []) (.inr breaks_nil)
      have hstops := (hu.reads (r := []) (.inr breaks_nil)).stops_blank []
      rw [hv] at hstops
      rw [hs, if_neg Bool.false_ne_true, List.nil_append, hv, List.cons_append, blanks?,
        stops_cons.1 hstops] at hp
      cases hp
    | true =>
      rw [hs, if_pos rfl, List.singleton_append, blanks?, if_pos (by decide),
        stops_blank_value hu, Option.bind_some] at hp
      by_cases hku : u.kind = .word
      · have hwords : ["CHARACTER", "VARYING"] ∈ Cleanup.parameterTypes := by decide
        exact no_open_behind_word h.tail hku hr hwords rfl hp
      · obtain ⟨c, w, hv, hc⟩ := sameLetter_V_of_head hu hku (renderBehind Token.value ts ++ r)
        rw [hv, hV hc] at hp
        cases hp

theorem typeBeforeParams?_word {t : Token} {ts : List Token} {r : Text} (h : Legible (t :: ts))
    (hk : t.kind = .word) (hr : Calm r) :
    Cleanup.typeBeforeParams? (t.value ++ (renderBehind Token.value ts ++ r)) = none := by
  refine typeBeforeParams?_eq_none fun words hwords r' hp => ?_
  have hshapes : ∀ words ∈ Cleanup.parameterTypes,
      words = ["CHARACTER", "VARYING"] ∨ words = [words.headD ""] := by decide +kernel
  rcases hshapes words hwords with rfl | hone
  · -- The second word is looked for behind the white space after the first one.
    have hm : t.isMark = false := by simp [Token.isMark, hk]
    rw [phrase?_pair, Option.bind_assoc] at hp
    obtain ⟨r₁, hfirst, hp⟩ := Option.bind_eq_some_iff.1 hp
    have hletters := sameLetter_break _ hwords "CHARACTER" (by decide)
    rcases afterWord?_append hletters (h.breaks_behind hm hr.breaks) hfirst with
      ⟨c, v, hc, rfl⟩ | ⟨-, rfl⟩
    · rw [blanks?, (facts_of_isPlainChar (h.printed.plain hk c hc)).2.1] at hp
      cases hp
    · exact no_open_behind_varying h hr hp
  · rw [hone] at hwords hp
    exact no_open_behind_word h hk hr hwords rfl hp

theorem isPassive_spaceBeforeParams : IsPassive Cleanup.spaceBeforeParams := by
  have hguard : ∀ b s, Text.atBoundary b s = false → Cleanup.spaceBeforeParams b s = none := by
    intro b s h
    rw [Cleanup.spaceBeforeParams, h]
    rfl
  have hstart : ∀ words ∈ Cleanup.parameterTypes, ∀ w ∈ words.head?, ∀ l ∈ w.toList.head?,
      Text.isAsciiLetter l = true := by decide +kernel
  refine ⟨⟨fun c hc _ => spaceBeforeParams_eq_none ?_, fun c hc => spaceBeforeParams_eq_none ?_,
    fun c hc => spaceBeforeParams_eq_none ?_,
    fun c _ b s => spaceBeforeParams_eq_none (by decide +kernel) b _, fun c hc b s => ?_⟩,
    fun c hc b s _ => spaceBeforeParams_eq_none ?_ b s, fun {t ts r} ht hw hr b => ?_⟩
  · intro words hwords w hw l hl
    exact sameLetter_break words hwords w (List.mem_of_mem_head? hw) l (List.mem_of_mem_head? hl) c hc
  · intro words hwords w hw l hl
    exact Text.sameLetter_of_isDigit (hstart words hwords w hw l hl) hc
  · revert c
    decide +kernel
  · -- The quote behind N is no letter of NVARCHAR.
    have hnone : Cleanup.typeBeforeParams? (c :: '\'' :: s) = none := by
      refine typeBeforeParams?_eq_none fun words hwords r hp => ?_
      have hsecond : ∀ words ∈ Cleanup.parameterTypes, ∀ w ∈ words.head?,
          ∃ l m x, w.toList = l :: m :: x ∧ Text.sameLetter m '\'' = false := by
        have : ∀ words ∈ Cleanup.parameterTypes, ∀ w ∈ words.head?,
            w.toList = w.toList.headD ' ' :: (w.toList.drop 1).headD ' ' :: w.toList.drop 2 ∧
              Text.sameLetter ((w.toList.drop 1).headD ' ') '\'' = false := by decide +kernel
        exact fun words hwords w hw => ⟨_, _, _, this words hwords w hw⟩
      cases words with
      | nil => exact absurd hwords (by decide)
      | cons w words =>
        obtain ⟨l, m, x, hw, hm⟩ := hsecond _ hwords w rfl
        have : Text.afterWord? w (c :: '\'' :: s) = none := by
          rw [hw, Text.afterWord?]
          split
          · rw [Text.afterWord?, hm]
            rfl
          · rfl
        rw [phrase?_eq_none this] at hp
        cases hp
    rw [Cleanup.spaceBeforeParams, hnone]
    split <;> rfl
  · intro words hwords w hw l hl
    exact sameLetter_break words hwords w (List.mem_of_mem_head? hw) l (List.mem_of_mem_head? hl) c
      (List.mem_append_left ['(', ')', ',', ';', '='] hc)
  · refine silent_word hguard ht.printed hw (fun b => ?_) b
    rw [Cleanup.spaceBeforeParams, typeBeforeParams?_word ht hw hr]
    split <;> rfl

end Rule
end TableDialects
