import TableDialects.Proofs.Cleanup.Lines
import TableDialects.Proofs.Text.LetterCase

/- BOOLEAN with a width. The rule that respells it looks into quoted text too, so
   it is followed through the tokens: it finds nothing in printed tokens other
   than string literals, and of these it makes literals (`Token.widen`). Lines
   of printed tokens are thus lines of such tokens after the clean-up
   (`tightTypes_linesText`). -/
namespace TableDialects
namespace Rule

theorem apply_replaced {rule : Rule} {b : Option Char} {c : Char} {s new rest : Text}
    (hrule : rule b (c :: s) = some (new, rest)) (hlt : rest.length < s.length + 1) :
    rule.apply false b (c :: s) = new ++ rule.apply false (lastBefore (c :: s) rest) rest := by
  rw [apply]
  split
  · rename_i hsome
    cases hsome
  · rw [hrule]
    dsimp only
    rw [dif_pos hlt]

theorem Silent.apply_eq {rule : Rule} {r v : Text} {b : Option Char} (h : Silent rule r b v) :
    ∃ b', rule.apply false b (v ++ r) = v ++ rule.apply false b' r := by
  induction v generalizing b with
  | nil => exact ⟨b, rfl⟩
  | cons c v ih =>
    obtain ⟨b', hb⟩ := ih h.2
    refine ⟨b', ?_⟩
    rw [List.cons_append, apply_copied (.inl rfl) h.1, hb]
    rfl

/-! ## Matching a word -/

/-- What a word matches is as long as it and made of the letters of the word. -/
theorem afterWord?_split {x s rest : Text} (h : Text.afterWord? x s = some rest) :
    ∃ m, s = m ++ rest ∧ m.length = x.length ∧ ∀ c ∈ m, ∃ l ∈ x, Text.sameLetter l c = true := by
  fun_induction Text.afterWord? x s with
  | case1 s => exact ⟨[], by rw [← Option.some.inj h]; rfl, rfl, fun c hc => nomatch hc⟩
  | case2 => cases h
  | case3 l x c s hl ih =>
    obtain ⟨m, rfl, hlen, hm⟩ := ih h
    refine ⟨c :: m, rfl, by simp [hlen], ?_⟩
    intro d hd
    rcases List.mem_cons.1 hd with rfl | hd
    · exact ⟨l, List.mem_cons_self, hl⟩
    · obtain ⟨k, hk, hkd⟩ := hm d hd
      exact ⟨k, List.mem_cons_of_mem l hk, hkd⟩
  | case4 => cases h

/-- No match goes beyond a character that is no letter of the word. -/
theorem afterWord?_barrier {x u r : Text} {q : Char}
    (hq : ∀ l ∈ x, Text.sameLetter l q = false) :
    Text.afterWord? x (u ++ q :: r) = (Text.afterWord? x u).map (· ++ q :: r) := by
  induction u generalizing x with
  | nil =>
    cases x with
    | nil => rfl
    | cons l x =>
      show (if Text.sameLetter l q then _ else none) = none
      rw [hq l List.mem_cons_self]
      rfl
  | cons c u ih =>
    cases x with
    | nil => rfl
    | cons l x =>
      rw [List.cons_append, Text.afterWord?, Text.afterWord?]
      split
      · exact ih fun k hk => hq k (List.mem_cons_of_mem l hk)
      · rfl

/-- A word with a character that `n` does not have is not matched in it. -/
theorem afterWord?_eq_none {x y n r : Text} {p q : Char}
    (hn : ∀ c ∈ n, Text.sameLetter p c = false)
    (hq : ∀ l ∈ x ++ [p], Text.sameLetter l q = false) :
    Text.afterWord? (x ++ p :: y) (n ++ q :: r) = none := by
  induction x generalizing n with
  | nil =>
    cases n with
    | nil =>
      rw [List.nil_append, List.nil_append, Text.afterWord?, hq p (by simp)]
      rfl
    | cons c n =>
      rw [List.nil_append, List.cons_append, Text.afterWord?, hn c List.mem_cons_self]
      rfl
  | cons l x ih =>
    cases n with
    | nil =>
      rw [List.cons_append, List.nil_append, Text.afterWord?, hq l (by simp)]
      rfl
    | cons c n =>
      rw [List.cons_append, List.cons_append, Text.afterWord?]
      split
      · exact ih (fun d hd => hn d (List.mem_cons_of_mem c hd)) fun k hk =>
          hq k (List.mem_cons_of_mem l hk)
      · rfl

/-! ## Inside string literals -/

theorem booleanWidth_cases {b : Option Char} {s new rest : Text}
    (h : Cleanup.booleanWidth b s = some (new, rest)) :
    Text.atBoundary b s = true ∧ Text.afterWord? "BOOLEAN(11)" s = some rest ∧
      new = "INTEGER(11)".toList := by
  unfold Cleanup.booleanWidth at h
  split at h
  · split at h
    · cases h
      exact ⟨‹_›, ‹_›, rfl⟩
    · cases h
  · cases h

theorem booleanWidth_eq_none {b : Option Char} {s : Text}
    (h : Text.afterWord? "BOOLEAN(11)" s = none) : Cleanup.booleanWidth b s = none := by
  unfold Cleanup.booleanWidth
  rw [h]
  split <;> rfl

theorem booleanWidth_start {c : Char} (h : Text.sameLetter 'B' c = false) (b : Option Char)
    (s : Text) : Cleanup.booleanWidth b (c :: s) = none := by
  refine booleanWidth_eq_none ?_
  rw [show "BOOLEAN(11)".toList = 'B' :: "OOLEAN(11)".toList by decide, Text.afterWord?, h]
  rfl

/-- No match goes beyond the character. -/
def IsBarrier (q : Char) : Prop := ∀ l ∈ "BOOLEAN(11)".toList, Text.sameLetter l q = false

instance (q : Char) : Decidable (IsBarrier q) :=
  inferInstanceAs (Decidable (∀ l ∈ "BOOLEAN(11)".toList, Text.sameLetter l q = false))

theorem IsBarrier.start {q : Char} (hq : IsBarrier q) : Text.sameLetter 'B' q = false := hq 'B' (by decide)

theorem isBarrier_quote : IsBarrier '\'' := by decide

theorem booleanWidth_barrier {q : Char} (hq : IsBarrier q) {b : Option Char} {c : Char} {u r : Text} :
    Cleanup.booleanWidth b (c :: (u ++ q :: r)) =
      (Cleanup.booleanWidth b (c :: u)).map fun p => (p.1, p.2 ++ q :: r) := by
  have hafter : Text.afterWord? "BOOLEAN(11)" (c :: (u ++ q :: r)) =
      (Text.afterWord? "BOOLEAN(11)" (c :: u)).map (· ++ q :: r) :=
    afterWord?_barrier (u := c :: u) hq
  have hboundary : Text.atBoundary b (c :: (u ++ q :: r)) = Text.atBoundary b (c :: u) := rfl
  unfold Cleanup.booleanWidth
  rw [hafter, hboundary]
  split
  · cases Text.afterWord? "BOOLEAN(11)" (c :: u) <;> rfl
  · rfl

theorem rest_lt_of_booleanWidth {b : Option Char} {c : Char} {s new rest : Text}
    (h : Cleanup.booleanWidth b (c :: s) = some (new, rest)) : rest.length < s.length + 1 := by
  obtain ⟨m, hm, hlen, -⟩ := afterWord?_split (booleanWidth_cases h).2.1
  have := congrArg List.length hm
  rw [List.length_append, hlen, List.length_cons] at this
  have : "BOOLEAN(11)".toList.length = 11 := by decide
  omega

theorem apply_barrier {q : Char} (hq : IsBarrier q) (b : Option Char) (u r : Text) :
    Cleanup.booleanWidth.apply false b (u ++ q :: r) =
      Cleanup.booleanWidth.apply false b u ++ q :: Cleanup.booleanWidth.apply false (some q) r := by
  -- By induction on the length: behind a replacement the text goes on with less.
  generalize hn : u.length = n
  induction n using Nat.strongRecOn generalizing b u with
  | ind n ih =>
    cases u with
    | nil =>
      rw [List.nil_append, apply_copied (.inl rfl) (booleanWidth_start hq.start b r), apply]
      rfl
    | cons c u =>
      have hbarrier := booleanWidth_barrier hq (b := b) (c := c) (u := u) (r := r)
      rw [List.cons_append]
      cases hrule : Cleanup.booleanWidth b (c :: u) with
      | none =>
        rw [hrule] at hbarrier
        rw [apply_copied (.inl rfl) hbarrier, apply_copied (.inl rfl) hrule,
          ih u.length (by simp [← hn]) _ u rfl]
        rfl
      | some p =>
        obtain ⟨new, rest⟩ := p
        have hlt := rest_lt_of_booleanWidth hrule
        rw [hrule] at hbarrier
        have hlast : lastBefore (c :: (u ++ q :: r)) (rest ++ q :: r) =
            lastBefore (c :: u) rest := by
          unfold lastBefore
          have hdiff : (c :: (u ++ q :: r)).length - (rest ++ q :: r).length =
              (c :: u).length - rest.length := by
            simp only [List.length_cons, List.length_append]
            omega
          rw [hdiff, ← List.cons_append, List.take_append_of_le_length (by omega)]
        rw [apply_replaced hbarrier (by simp only [List.length_append, List.length_cons]; omega),
          apply_replaced hrule hlt, hlast,
          ih rest.length (by rw [← hn, List.length_cons]; exact hlt) _ rest rfl]
        simp

theorem mem_apply_booleanWidth {b : Option Char} {s : Text} {c : Char}
    (h : c ∈ Cleanup.booleanWidth.apply false b s) : c ∈ s ∨ c ∈ "INTEGER(11)".toList := by
  generalize hn : s.length = n
  induction n using Nat.strongRecOn generalizing b s with
  | ind n ih =>
    cases s with
    | nil =>
      rw [apply] at h
      cases h
    | cons d s =>
      cases hrule : Cleanup.booleanWidth b (d :: s) with
      | none =>
        rw [apply_copied (.inl rfl) hrule] at h
        rcases List.mem_cons.1 h with rfl | h
        · exact .inl List.mem_cons_self
        · exact (ih s.length (by simp [← hn]) h rfl).imp_left (List.mem_cons_of_mem d)
      | some p =>
        obtain ⟨new, rest⟩ := p
        have hlt := rest_lt_of_booleanWidth hrule
        obtain ⟨-, hafter, hnew⟩ := booleanWidth_cases hrule
        obtain ⟨m, hm, -, -⟩ := afterWord?_split hafter
        rw [apply_replaced hrule hlt] at h
        rcases List.mem_append.1 h with h | h
        · exact .inr (hnew ▸ h)
        · rw [hm]
          exact (ih rest.length (by rw [← hn, List.length_cons]; exact hlt) h rfl).imp_left
            (List.mem_append_right m)

theorem quotedBody_drop {q : Char} {m s : Text} (hm : ∀ c ∈ m, c ≠ q)
    (h : QuotedBody q (m ++ s)) : QuotedBody q s := by
  induction m with
  | nil => exact h
  | cons c m ih =>
    have hc := hm c List.mem_cons_self
    rw [List.cons_append] at h
    generalize hs : m ++ s = t at h
    cases h with
    | close => exact absurd rfl hc
    | pair h => exact absurd rfl hc
    | other _ h => exact ih (fun d hd => hm d (List.mem_cons_of_mem c hd)) (hs ▸ h)

theorem quotedBody_front {q : Char} {m s : Text} (hm : ∀ c ∈ m, c ≠ q) (h : QuotedBody q s) :
    QuotedBody q (m ++ s) := by
  induction m with
  | nil => exact h
  | cons c m ih =>
    exact .other (hm c List.mem_cons_self) (ih fun d hd => hm d (List.mem_cons_of_mem c hd))

theorem quotedBody_apply {b : Option Char} {s : Text} (h : QuotedBody '\'' s) :
    QuotedBody '\'' (Cleanup.booleanWidth.apply false b s) := by
  generalize hn : s.length = n
  induction n using Nat.strongRecOn generalizing b s with
  | ind n ih =>
    have hquote : ∀ (b : Option Char) (t : Text), Cleanup.booleanWidth.apply false b ('\'' :: t) =
        '\'' :: Cleanup.booleanWidth.apply false (some '\'') t := fun b t =>
      apply_copied (.inl rfl) (booleanWidth_start (by decide) b t)
    cases h with
    | close =>
      rw [hquote, apply]
      exact .close
    | @pair t h =>
      rw [hquote, hquote]
      exact .pair (ih t.length (by rw [← hn, List.length_cons, List.length_cons]; omega) h rfl)
    | @other c t hc h =>
      cases hrule : Cleanup.booleanWidth b (c :: t) with
      | none =>
        rw [apply_copied (.inl rfl) hrule]
        exact .other hc (ih t.length (by simp [← hn]) h rfl)
      | some p =>
        obtain ⟨new, rest⟩ := p
        have hlt := rest_lt_of_booleanWidth hrule
        obtain ⟨-, hafter, hnew⟩ := booleanWidth_cases hrule
        obtain ⟨m, hm, -, hletters⟩ := afterWord?_split hafter
        have hquoteless : ∀ d ∈ m, d ≠ '\'' := by
          rintro d hd rfl
          obtain ⟨l, hl, hsame⟩ := hletters _ hd
          rw [isBarrier_quote l hl] at hsame
          cases hsame
        have hrest : QuotedBody '\'' rest := quotedBody_drop hquoteless (hm ▸ .other hc h)
        rw [apply_replaced hrule hlt, hnew]
        exact quotedBody_front (by decide)
          (ih rest.length (by rw [← hn, List.length_cons]; exact hlt) hrest rfl)

theorem apply_open {lead : Text} {o : Char} (hlead : ∀ c ∈ lead, Text.sameLetter 'B' c = false)
    (ho : Text.sameLetter 'B' o = false) (b : Option Char) (s : Text) :
    Cleanup.booleanWidth.apply false b (lead ++ o :: s) =
      lead ++ o :: Cleanup.booleanWidth.apply false (some o) s := by
  obtain ⟨b', hb⟩ := (silent_of_forall (r := o :: s) (fun c hc => booleanWidth_start (hlead c hc)) b).apply_eq
  rw [hb, apply_copied (.inl rfl) (booleanWidth_start ho b' s)]

end Rule

def widened (v : Text) : Text := Cleanup.booleanWidth.apply false none v

theorem QuotedBody.concat {q : Char} {s : Text} (h : QuotedBody q s) : ∃ u, s = u ++ [q] := by
  induction h with
  | close => exact ⟨[], rfl⟩
  | pair h ih =>
    obtain ⟨u, rfl⟩ := ih
    exact ⟨q :: q :: u, rfl⟩
  | @other c b hc h ih =>
    obtain ⟨u, rfl⟩ := ih
    exact ⟨c :: u, rfl⟩

section Quoted
variable {lead u : Text} {o q : Char}

theorem widened_quoted (hlead : ∀ c ∈ lead, Text.sameLetter 'B' c = false) (ho : Text.sameLetter 'B' o = false)
    (hq : Rule.IsBarrier q) : widened (lead ++ o :: (u ++ [q])) =
      lead ++ o :: (Cleanup.booleanWidth.apply false (some o) u ++ [q]) := by
  have hnil : Cleanup.booleanWidth.apply false (some q) [] = [] := by rw [Rule.apply]
  rw [widened, Rule.apply_open hlead ho, Rule.apply_barrier hq, hnil]

theorem apply_quoted (hlead : ∀ c ∈ lead, Text.sameLetter 'B' c = false) (ho : Text.sameLetter 'B' o = false)
    (hq : Rule.IsBarrier q) (b : Option Char) (r : Text) :
    Cleanup.booleanWidth.apply false b (lead ++ o :: (u ++ [q]) ++ r) =
      widened (lead ++ o :: (u ++ [q])) ++ Cleanup.booleanWidth.apply false (some q) r := by
  have hsplit : lead ++ o :: (u ++ [q]) ++ r = lead ++ o :: (u ++ q :: r) := by simp
  rw [hsplit, Rule.apply_open hlead ho, Rule.apply_barrier hq, widened_quoted hlead ho hq]
  simp

end Quoted

theorem IsLiteral.lead_start {lead : Text} (hlead : lead = [] ∨ lead = ['N'] ∨ lead = ['n']) :
    ∀ c ∈ lead, Text.sameLetter 'B' c = false := by
  rcases hlead with rfl | rfl | rfl <;> decide

theorem IsLiteral.apply_append {v : Text} (h : IsLiteral v) (b : Option Char) (r : Text) :
    Cleanup.booleanWidth.apply false b (v ++ r) =
      widened v ++ Cleanup.booleanWidth.apply false (some '\'') r := by
  obtain ⟨⟨lead, body, rfl, hlead, hbody⟩, -⟩ := h
  obtain ⟨u, rfl⟩ := hbody.concat
  exact apply_quoted (lead_start hlead) (by decide) Rule.isBarrier_quote b r

theorem IsLiteral.widened {v : Text} (h : IsLiteral v) : IsLiteral (widened v) := by
  obtain ⟨⟨lead, body, rfl, hlead, hbody⟩, hone⟩ := h
  refine ⟨⟨lead, Cleanup.booleanWidth.apply false (some '\'') body,
    Rule.apply_open (lead_start hlead) (by decide) none body, hlead,
    Rule.quotedBody_apply hbody⟩, ?_⟩
  intro c hc
  rcases Rule.mem_apply_booleanWidth hc with hin | hin
  · exact hone c hin
  · clear hc
    revert c
    decide

/-! ## Tokens and lines -/

/-- A token after the clean-up of BOOLEAN with a width. -/
def Token.widen (t : Token) : Token :=
  if t.kind = .string then { t with value := widened t.value } else t

theorem Token.widen_of_ne {t : Token} (h : t.kind ≠ .string) : t.widen = t := if_neg h

@[simp] theorem Token.spaced_widen (t : Token) : t.widen.spaced = t.spaced := by
  unfold Token.widen
  split <;> rfl

namespace Rule

theorem no_open_at_boolean {t : Token} {ts : List Token} {r : Text} (ht : Legible (t :: ts))
    (hspells : t.spells "BOOLEAN" = true) (hr : Calm r) : '(' ∉ (renderBehind Token.value ts ++ r).head? := by
  intro hin
  cases ts with
  | nil =>
    rw [renderBehind, List.nil_append] at hin
    cases r with
    | nil => cases hin
    | cons c r =>
      cases hin
      exact (hr.next '(' rfl).2.1 rfl
  | cons u ts =>
    have hu := ht.tail.printed
    obtain ⟨c, w, hv, -⟩ := hu.reads (r := []) (.inr breaks_nil)
    rw [renderBehind, List.append_assoc, List.append_assoc] at hin
    cases hs : u.spaced with
    | true =>
      rw [hs] at hin
      cases hin
    | false =>
      rw [hs, if_neg Bool.false_ne_true, List.nil_append, hv] at hin
      have hhead : '(' ∈ u.value.head? := by
        rw [hv]
        exact hin
      have hother := follows_open ht.2.1 (isPunct_of_head hu (.inr rfl) hhead)
      rw [hs, if_neg Bool.false_ne_true, hspells] at hother
      cases hother

theorem sameLetter_open_of_isNameChar {c : Char} (h : isNameChar c = true) : Text.sameLetter '(' c = false :=
  of_isNameChar (p := fun c => Text.sameLetter '(' c = false) (by decide +kernel) h

/-- The rule finds nothing in a word: BOOLEAN ends before a parenthesis can stand
there, and what starts with it goes on with a letter. -/
theorem silent_booleanWidth_word {t : Token} {ts : List Token} {r : Text} (ht : Legible (t :: ts))
    (hw : t.kind = .word) (hr : Calm r) (b : Option Char) :
    Silent Cleanup.booleanWidth (renderBehind Token.value ts ++ r) b t.value := by
  have hguard : ∀ b s, Text.atBoundary b s = false → Cleanup.booleanWidth b s = none := by
    intro b s h
    rw [Cleanup.booleanWidth, h]
    rfl
  have hm : t.isMark = false := by simp [Token.isMark, hw]
  have hbreaks := ht.breaks_behind hm hr.breaks
  have hopen : ∀ {c : Char} {s : Text}, Text.sameLetter '(' c = false →
      Text.afterWord? "(11)" (c :: s) = none := by
    intro c s hc
    rw [show "(11)".toList = '(' :: "11)".toList by decide, Text.afterWord?, hc]
    rfl
  refine silent_word hguard ht.printed hw (fun b => booleanWidth_eq_none ?_) b
  rw [show "BOOLEAN(11)".toList = "BOOLEAN".toList ++ "(11)".toList by decide,
    Text.afterWord?_append]
  cases hafter : Text.afterWord? "BOOLEAN" (t.value ++ (renderBehind Token.value ts ++ r)) with
  | none => rfl
  | some r' =>
    rw [Option.bind_some]
    rcases afterWord?_append (by decide) hbreaks hafter with ⟨c, v, hc, rfl⟩ | ⟨hend, rfl⟩
    · exact hopen (sameLetter_open_of_isNameChar (isNameChar_of_isPlainChar (ht.printed.plain hw c hc)))
    · have hspells : t.spells "BOOLEAN" = true := by
        unfold Token.spells
        rw [hw, hend]
        rfl
      have hnot := no_open_at_boolean ht hspells hr
      cases hrest : renderBehind Token.value ts ++ r with
      | nil => rfl
      | cons c s =>
        rw [hrest] at hbreaks hnot
        exact hopen (of_isBreak (p := fun c => c ≠ '(' → Text.sameLetter '(' c = false)
          (by decide) (breaks_cons.1 hbreaks) fun h => hnot (by rw [h]; rfl))

theorem silent_booleanWidth_quote (d : Dialect) {n : Text} (hn : isPlainName n = true) (r : Text)
    (b : Option Char) : Silent Cleanup.booleanWidth r b (d.quote n) := by
  have hclose : ∀ l ∈ "BOOLEAN".toList ++ ['('],
      Text.sameLetter l d.profile.quoteClose = false := by cases d <;> decide
  -- Inside the quotes there is no parenthesis, and no letter is a quote.
  have hinside : ∀ (n : Text) b, (∀ c ∈ n, isNameChar c = true) →
      Silent Cleanup.booleanWidth r b (n ++ [d.profile.quoteClose]) := by
    intro n
    induction n with
    | nil =>
      intro b _
      exact ⟨booleanWidth_start (hclose 'B' (by decide)) b _, trivial⟩
    | cons c n ih =>
      intro b hn
      refine ⟨booleanWidth_eq_none ?_, ih _ fun e he => hn e (List.mem_cons_of_mem c he)⟩
      have hnone := afterWord?_eq_none (x := "BOOLEAN".toList) (y := "11)".toList) (n := c :: n) (p := '(')
        (r := r) (fun e he => sameLetter_open_of_isNameChar (hn e he)) hclose
      rw [show "BOOLEAN".toList ++ '(' :: "11)".toList = "BOOLEAN(11)".toList by decide] at hnone
      simpa using hnone
  rw [(quote_plainName d hn).1]
  exact ⟨booleanWidth_start (by cases d <;> decide) b _, hinside n _ (chars_of_isPlainName hn)⟩

/-- The rule finds nothing in a printed token that is no string. -/
theorem silent_booleanWidth {t : Token} {ts : List Token} {r : Text} (ht : Legible (t :: ts))
    (hk : t.kind ≠ .string) (hr : Calm r) (b : Option Char) :
    Silent Cleanup.booleanWidth (renderBehind Token.value ts ++ r) b t.value := by
  by_cases hw : t.kind = .word
  · exact silent_booleanWidth_word ht hw hr b
  · have hprinted := ht.printed
    obtain ⟨kind, value, start, spaced⟩ := t
    show Silent _ _ b value
    cases kind with
    | word => exact absurd rfl hw
    | string => exact absurd rfl hk
    | ident =>
      obtain ⟨d, n, hn, hv⟩ := hprinted
      rw [show value = _ from hv]
      exact silent_booleanWidth_quote d hn _ b
    | number =>
      refine silent_of_forall (fun c hc => booleanWidth_start ?_) b
      rcases ReadsNumber.chars hprinted c hc with hd | hd
      · exact Text.sameLetter_of_isDigit (by decide) hd
      · clear hc
        revert c
        decide
    | punct =>
      obtain ⟨c, hc, hv⟩ := hprinted
      rw [show value = [c] from hv]
      refine ⟨booleanWidth_start ?_ b _, trivial⟩
      rcases hc with rfl | rfl | rfl | rfl <;> decide
    | op =>
      rw [show value = ['='] from hprinted]
      exact ⟨booleanWidth_start (by decide) b _, trivial⟩

/-- The rule at a token: what it makes of it, and the text behind. -/
theorem booleanWidth_token {t : Token} {ts : List Token} {r : Text} (ht : Legible (t :: ts))
    (hr : Calm r) (b : Option Char) :
    ∃ b', Cleanup.booleanWidth.apply false b (t.value ++ (renderBehind Token.value ts ++ r)) =
      t.widen.value ++ Cleanup.booleanWidth.apply false b' (renderBehind Token.value ts ++ r) := by
  by_cases hk : t.kind = .string
  · obtain ⟨kind, value, start, spaced⟩ := t
    cases show kind = .string from hk
    exact ⟨some '\'', IsLiteral.apply_append ht.printed b _⟩
  · rw [Token.widen_of_ne hk]
    exact (silent_booleanWidth ht hk hr b).apply_eq

theorem booleanWidth_behind {ts : List Token} {r r' : Text} (ht : Legible ts) (hr : Calm r)
    (hrest : ∀ b, Cleanup.booleanWidth.apply false b r = r') (b : Option Char) :
    Cleanup.booleanWidth.apply false b (renderBehind Token.value ts ++ r) =
      renderBehind Token.value (ts.map Token.widen) ++ r' := by
  induction ts generalizing b with
  | nil => exact hrest b
  | cons t ts ih =>
    have hvalue : ∀ b, Cleanup.booleanWidth.apply false b
        (t.value ++ (renderBehind Token.value ts ++ r)) =
          t.widen.value ++ (renderBehind Token.value (ts.map Token.widen) ++ r') := by
      intro b
      obtain ⟨b', hb⟩ := booleanWidth_token ht hr b
      rw [hb, ih ht.tail]
    rw [List.map_cons, renderBehind, renderBehind, Token.spaced_widen]
    simp only [List.append_assoc]
    cases t.spaced with
    | false => exact hvalue b
    | true =>
      rw [if_pos rfl, List.cons_append, List.cons_append,
        apply_copied (.inl rfl) (booleanWidth_start (by decide) b _)]
      exact congrArg (' ' :: ·) (hvalue _)

end Rule

namespace Line

/-- A line after the clean-up of BOOLEAN with a width. -/
def widen (l : Line) : Line := { l with tokens := l.tokens.map Token.widen }

theorem booleanWidth_text {l : Line} {r r' : Text} (hl : l.IsReadable) (hr : Rule.Calm r)
    (hrest : ∀ b, Cleanup.booleanWidth.apply false b r = r') (b : Option Char) :
    Cleanup.booleanWidth.apply false b (l.text ++ r) = l.widen.text ++ r' := by
  obtain ⟨indent, tokens⟩ := l
  obtain ⟨hline, t, ts, rfl, -, -⟩ := hl
  have hleg : Legible (t :: ts) := hline
  clear hline
  rw [text, text, List.append_assoc, List.append_assoc]
  show Cleanup.booleanWidth.apply false b (List.replicate indent ' ' ++ (renderTokens (t :: ts) ++ r)) =
    List.replicate indent ' ' ++ (renderTokens (t.widen :: ts.map Token.widen) ++ r')
  induction indent generalizing b with
  | zero =>
    obtain ⟨b', hb⟩ := Rule.booleanWidth_token hleg hr b
    show Cleanup.booleanWidth.apply false b (t.value ++ renderBehind Token.value ts ++ r) =
      t.widen.value ++ renderBehind Token.value (ts.map Token.widen) ++ r'
    rw [List.append_assoc, hb, Rule.booleanWidth_behind hleg.tail hr hrest, List.append_assoc]
  | succ n ih =>
    rw [List.replicate_succ, List.cons_append, List.cons_append,
      Rule.apply_copied (.inl rfl) (Rule.booleanWidth_start (by decide) b _), ih]

end Line

theorem booleanWidth_linesBelow {ls : List Line} (h : ∀ l ∈ ls, l.IsReadable) (b : Option Char) :
    Cleanup.booleanWidth.apply false b (linesBelow ls) = linesBelow (ls.map Line.widen) := by
  induction ls generalizing b with
  | nil =>
    show Cleanup.booleanWidth.apply false b [] = []
    rw [Rule.apply]
  | cons l ls ih =>
    have hrest : ∀ m ∈ ls, m.IsReadable := fun m hm => h m (List.mem_cons_of_mem l hm)
    have hline := Line.booleanWidth_text (h l List.mem_cons_self) (Rule.calm_linesBelow hrest)
      (ih hrest) (some '\n')
    show Cleanup.booleanWidth.apply false b ('\n' :: (l.text ++ linesBelow ls)) =
      '\n' :: (l.widen.text ++ linesBelow (ls.map Line.widen))
    rw [Rule.apply_copied (.inl rfl) (Rule.booleanWidth_start (by decide) b _), hline]

theorem tightTypes_linesText {ls : List Line} (h : ∀ l ∈ ls, l.IsReadable) :
    Cleanup.tightTypes (linesText ls) = linesText (ls.map Line.widen) := by
  rw [Cleanup.tightTypes, Cleanup.outsideQuotes,
    Rule.isPassive_spaceBeforeParams.apply_linesText h]
  cases ls with
  | nil =>
    show Cleanup.booleanWidth.apply false none [] = []
    rw [Rule.apply]
  | cons l ls =>
    have hrest : ∀ m ∈ ls, m.IsReadable := fun m hm => h m (List.mem_cons_of_mem l hm)
    rw [List.map_cons, linesText_cons, linesText_cons]
    exact Line.booleanWidth_text (h l List.mem_cons_self) (Rule.calm_linesBelow hrest)
      (booleanWidth_linesBelow hrest) none

end TableDialects
