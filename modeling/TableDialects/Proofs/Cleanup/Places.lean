import TableDialects.Proofs.Cleanup.Passes
import TableDialects.Proofs.Token.Atoms

/- What the passes of the clean-up see of a token. Inside a token, up to its own
   quotes, there is no place where quoted text, white space or a comment starts
   (`ReadsToken.inertToQuotes`). A pass that looks for white space or comments outside
   quoted text therefore copies every token (`Rule.Applied.token`). -/
namespace TableDialects

open Scan

/-! ## Places inside a token -/

/-- At no place of `v`, in front of `r`, quoted text, white space or a comment
starts. -/
def Inert (r : Text) : Text → Prop
  | [] => True
  | c :: v => (Text.quoted? (c :: (v ++ r)) = none ∧ Text.isBlank c = false ∧
      comment? (c :: (v ++ r)) = none) ∧ Inert r v

theorem inert_append {r v w : Text} (hv : Inert (w ++ r) v) (hw : Inert r w) :
    Inert r (v ++ w) := by
  induction v with
  | nil => exact hw
  | cons c v ih =>
    have happ : v ++ w ++ r = v ++ (w ++ r) := List.append_assoc v w r
    exact ⟨happ ▸ hv.1, ih hv.2⟩

theorem inert_of_chars {r v : Text} (h : ∀ c ∈ v, Text.closerOf c = none ∧ Text.isBlank c = false ∧
    c ≠ '-' ∧ c ≠ '/') : Inert r v := by
  induction v with
  | nil => trivial
  | cons c v ih =>
    obtain ⟨hclose, hblank, hminus, hslash⟩ := h c List.mem_cons_self
    exact ⟨⟨Rule.quoted?_eq_none hclose _, hblank, comment?_other _ hminus hslash⟩,
      ih fun d hd => h d (List.mem_cons_of_mem c hd)⟩

theorem inert_digits {r v : Text} (h : ∀ c ∈ v, Text.isDigit c = true) : Inert r v :=
  inert_of_chars fun c hc => ⟨Rule.closerOf_of_isDigit (h c hc), isBlank_of_isDigit (h c hc),
    Text.ne_of_isDigit (h c hc) (by decide), Text.ne_of_isDigit (h c hc) (by decide)⟩

theorem inert_mantissa {r v : Text} (h : IsMantissa v) : Inert r v := by
  cases h with
  | whole hne hd => exact inert_digits hd
  | point hne hd he =>
    exact inert_append (inert_digits hd) (inert_append (v := ['.']) (inert_of_chars (by decide))
      (inert_digits he))

theorem inert_number {r v : Text} (h : ReadsNumber v r) : Inert r v := by
  cases h with
  | plain hv hr he => exact inert_mantissa hv
  | @scaled v lead ds _ hv hl hne hd hr =>
    refine inert_append (inert_mantissa hv) (inert_append ?_ (inert_digits hd))
    obtain ⟨e, he, hlead⟩ := hl
    have hexp : ∀ {x : Text}, Inert x [e] := by
      rcases he with rfl | rfl <;> exact inert_of_chars (by decide)
    rcases hlead with rfl | rfl | rfl
    · exact hexp
    · exact inert_append (v := [e]) hexp (inert_of_chars (by decide))
    · -- The sign of an exponent is followed by a digit, not by another hyphen.
      refine inert_append (v := [e]) hexp ⟨⟨Rule.quoted?_eq_none (by decide) _, by decide, ?_⟩, trivial⟩
      cases ds with
      | nil => exact absurd rfl hne
      | cons d ds =>
        have hd := hd d List.mem_cons_self
        rw [List.nil_append, List.cons_append, comment?_cons, if_neg, if_neg]
        · exact fun h => absurd h.1 (by decide)
        · exact fun h => Text.ne_of_isDigit hd (by decide) h.2

theorem inert_word {c : Char} {r v : Text} (hc : startsWord c = true)
    (hv : ∀ d ∈ v, continuesWord d = true) : Inert r (c :: v) := by
  have hchars : ∀ d ∈ c :: v, continuesWord d = true :=
    List.forall_mem_cons.2 ⟨continuesWord_of_startsWord hc, hv⟩
  have hne : ∀ {d q : Char}, continuesWord d = true → continuesWord q = false → d ≠ q := by
    rintro d q hd hq rfl
    rw [hd] at hq
    cases hq
  refine inert_of_chars fun d hd => ⟨?_, isBlank_of_continuesWord (hchars d hd),
    hne (hchars d hd) (by decide), hne (hchars d hd) (by decide)⟩
  simp [Text.closerOf, hne (hchars d hd) (q := '\'') (by decide),
    hne (hchars d hd) (q := '"') (by decide), hne (hchars d hd) (q := '`') (by decide),
    hne (hchars d hd) (q := '[') (by decide)]

theorem quoted?_of_body {o q : Char} {body r : Text} (ho : Text.closerOf o = some q) (hbody : QuotedBody q body)
    (hr : runsOn q r = false) : Text.quoted? (o :: body ++ r) = some (o :: body, r) := by
  simp [Text.quoted?, ho, hbody.closeQuote? hr]

theorem quoted?_of_not_mem {c : Char} {s : Text} (h : ∀ q, Text.closerOf c = some q → q ∉ s) :
    Text.quoted? (c :: s) = none := by
  cases hq : Text.closerOf c with
  | none => exact Rule.quoted?_eq_none hq s
  | some q => simp [Text.quoted?, hq, closeQuote?_eq_none_iff.2 (h q hq)]

/-- Up to the quotes of the token, if it has any, the token is inert. -/
def InertToQuotes (k : TokenKind) (v r : Text) : Prop :=
  ∃ lead part, v = lead ++ part ∧ Inert (part ++ r) lead ∧
    (part = [] ∨ (k = .string ∨ k = .ident) ∧ Text.quoted? (part ++ r) = some (part, r))

theorem ReadsToken.inertToQuotes {k : TokenKind} {v r : Text} (h : ReadsToken k v r) :
    InertToQuotes k v r := by
  have hplain : Inert r v → InertToQuotes k v r := fun h => ⟨v, [], (List.append_nil _).symm, h, .inl rfl⟩
  cases h.rule with
  | @string lead n hlead hr =>
    refine ⟨lead, _, rfl, ?_, .inr ⟨.inl rfl, quoted?_of_body rfl (quotedBody_double _ _) hr⟩⟩
    rcases hlead with rfl | rfl | rfl <;> exact inert_of_chars (by decide)
  | ident ho hr =>
    have hcloser := closerOf_eq_some_iff.2 (.inr ho)
    exact ⟨[], _, rfl, trivial, .inr ⟨.inr rfl, quoted?_of_body hcloser (quotedBody_double _ _) hr⟩⟩
  | number hn => exact hplain (inert_number hn)
  | word hc hw hr hn => exact hplain (inert_word hc hw)
  | punct hc hr =>
    simp only [isMark, Bool.or_eq_true, beq_iff_eq] at hc
    rcases hc with (((rfl | rfl) | rfl) | rfl) | rfl <;> exact hplain (inert_of_chars (by decide))
  | pair hp =>
    simp only [isPair, Bool.or_eq_true, Bool.and_eq_true, beq_iff_eq] at hp
    rcases hp with ((((⟨rfl, rfl⟩ | ⟨rfl, rfl⟩) | ⟨rfl, rfl⟩) | ⟨rfl, rfl⟩) | ⟨rfl, rfl⟩) | ⟨rfl, rfl⟩ <;>
      exact hplain (inert_of_chars (by decide))
  | op hblank hdigit hword hmark hpair hquote hcomment =>
    exact hplain ⟨⟨quoted?_of_not_mem hquote, hblank, hcomment⟩, trivial⟩

theorem Inert.isBlank {r v : Text} (h : Inert r v) : ∀ c ∈ v, Text.isBlank c = false := by
  induction v with
  | nil => exact List.forall_mem_nil _
  | cons c v ih => exact List.forall_mem_cons.2 ⟨h.1.2.1, ih h.2⟩

theorem ReadsToken.oneLine {k : TokenKind} {v r : Text} (h : ReadsToken k v r)
    (hq : k = .string ∨ k = .ident → ∀ c ∈ v, c ≠ '\n' ∧ c ≠ '\r') :
    ∀ c ∈ v, c ≠ '\n' ∧ c ≠ '\r' := by
  obtain ⟨lead, part, rfl, hlead, hpart⟩ := h.inertToQuotes
  rcases hpart with rfl | ⟨hk, -⟩
  · intro c hc
    rw [List.append_nil] at hc
    have hblank := hlead.isBlank c hc
    constructor <;> rintro rfl <;> exact absurd hblank (by decide)
  · exact hq hk

/-! ## Passes over tokens -/

namespace Rule

/-- A rule that finds something only where white space or a comment starts. -/
def FindsGaps (rule : Rule) : Prop :=
  ∀ {c : Char} {s : Text}, Text.isBlank c = false → comment? (c :: s) = none →
    rule none (c :: s) = none

theorem findsGaps_blockComment : FindsGaps Cleanup.blockComment := by
  intro c s _ hcomment
  have hnone : blockComment? (c :: s) = none := by
    unfold comment? at hcomment
    split at hcomment
    · cases hcomment
    · exact hcomment
  simp [Cleanup.blockComment, hnone]

theorem findsGaps_lineComment : FindsGaps Cleanup.lineComment := by
  intro c s _ hcomment
  cases hsome : Cleanup.lineComment none (c :: s) with
  | none => rfl
  | some p =>
    obtain ⟨t, hs, -, -⟩ := lineComment_eq_some hsome
    cases hs
    cases hcomment

theorem findsGaps_spaceBeforeComma : FindsGaps Cleanup.spaceBeforeComma := by
  intro c s hblank _
  rw [spaceBeforeComma_eq_none_iff, hblank]
  exact fun h => Bool.false_ne_true h.1

theorem Applied.inert {rule : Rule} (hrule : FindsGaps rule) {v r out : Text} (hv : Inert r v)
    (h : Applied rule r out) : Applied rule (v ++ r) (v ++ out) := by
  induction v with
  | nil => exact h
  | cons c v ih =>
    obtain ⟨⟨hq, hblank, hcomment⟩, hv⟩ := hv
    exact .copied hq (hrule hblank hcomment) (ih hv)

theorem Applied.token {rule : Rule} (hrule : FindsGaps rule) {k : TokenKind} {v r out : Text}
    (hv : ReadsToken k v r) (h : Applied rule r out) : Applied rule (v ++ r) (v ++ out) := by
  obtain ⟨lead, part, rfl, hlead, hpart⟩ := hv.inertToQuotes
  rw [List.append_assoc, List.append_assoc]
  refine .inert hrule hlead ?_
  rcases hpart with rfl | ⟨-, hq⟩
  · exact h
  · exact .quoted hq h

theorem Applied.blank {rule : Rule} {c : Char} {r out : Text} (hc : Text.isBlank c = true)
    (hrule : rule none (c :: r) = none) (h : Applied rule r out) :
    Applied rule (c :: r) (c :: out) :=
  .copied (quoted?_eq_none (closerOf_of_isBlank hc) r) hrule h

end Rule
end TableDialects
