import Mathlib.Data.List.Flatten
import TableDialects.Proofs.Cleanup.Lines

/- Running the clean-up of lines a second time. Every pass of it only takes
   characters away, so the clean-up keeps a text exactly if each pass keeps it.
   On a line that was cleaned, the passes over line comments and over white space
   before commas find nothing more (`Cleanup.line_idle`). What a second run may
   still find is a block comment that taking out others has put together, and
   white space at the front that stood behind a line with nothing but a comment
   (`Cleanup.lines_lines_eq_iff`). -/
namespace TableDialects
namespace Rule

/-- A rule that cuts: it looks at nothing before its place, and it leaves less
than it takes. -/
structure IsCut (rule : Rule) : Prop where
  blind : ∀ b s, rule b s = rule none s
  shorter : ∀ {s new rest : Text}, rule none s = some (new, rest) →
    ∃ old, s = old ++ rest ∧ new.Sublist old ∧ new.length < old.length

/-- The second text is what a rule that looks at nothing before its place makes
of the first one. -/
inductive Applied (rule : Rule) : Text → Text → Prop
  | nil : Applied rule [] []
  | quoted {s part rest out : Text} (hq : Text.quoted? s = some (part, rest))
    (h : Applied rule rest out) : Applied rule s (part ++ out)
  | replaced {s new rest out : Text} (hq : Text.quoted? s = none)
    (hrule : rule none s = some (new, rest)) (h : Applied rule rest out) :
    Applied rule s (new ++ out)
  | copied {c : Char} {s out : Text} (hq : Text.quoted? (c :: s) = none)
    (hrule : rule none (c :: s) = none) (h : Applied rule s out) : Applied rule (c :: s) (c :: out)

theorem IsCut.applied {rule : Rule} (h : IsCut rule) (b : Option Char) (s : Text) :
    Applied rule s (rule.apply true b s) := by
  fun_induction rule.apply true b s with
  | case1 => exact .nil
  | case2 b c s part rest hq ih => exact .quoted (by simpa using hq) ih
  | case3 b c s hq new rest hrule hlt ih =>
    exact .replaced (by simpa using hq) (by rw [← h.blind b, hrule]) ih
  | case4 b c s hq new rest hrule hlt ih =>
    rw [h.blind] at hrule
    obtain ⟨old, hold, -, hlen⟩ := h.shorter hrule
    have := congrArg List.length hold
    rw [List.length_append, List.length_cons] at this
    omega
  | case5 b c s hq hrule ih =>
    exact .copied (by simpa using hq) (by rw [← h.blind b, hrule]) ih

theorem Applied.apply_eq {rule : Rule} (hcut : IsCut rule) {s out : Text} (h : Applied rule s out)
    (b : Option Char) : rule.apply true b s = out := by
  induction h generalizing b with
  | nil => rw [apply]
  | quoted hq h ih => rw [apply_quoted hq, ih]
  | @replaced s new rest out hq hrule h ih =>
    obtain ⟨old, hs, -, hlen⟩ := hcut.shorter hrule
    have hlt : rest.length < s.length := by
      rw [hs, List.length_append]
      omega
    cases s with
    | nil => cases hlt
    | cons c s =>
      rw [apply]
      split
      · rename_i hsome
        rw [if_pos rfl, hq] at hsome
        cases hsome
      · rw [hcut.blind, hrule]
        exact (dif_pos hlt).trans (by rw [ih])
  | copied hq hrule h ih => rw [apply_copied (.inr hq) (by rw [hcut.blind, hrule]), ih]

theorem Applied.outsideQuotes_eq {rule : Rule} (hcut : IsCut rule) {s out : Text}
    (h : Applied rule s out) : Cleanup.outsideQuotes rule s = out :=
  h.apply_eq hcut none

theorem Applied.sublist {rule : Rule} (hcut : IsCut rule) {s out : Text}
    (h : Applied rule s out) : out.Sublist s := by
  induction h with
  | nil => exact .slnil
  | quoted hq h ih =>
    rw [← Text.quoted?_append hq]
    exact ih.append_left _
  | replaced hq hrule h ih =>
    obtain ⟨old, rfl, hsub, -⟩ := hcut.shorter hrule
    exact hsub.append ih
  | copied hq hrule h ih => exact ih.cons_cons _

/-- A rule that cuts and yet takes nothing away has found nothing. -/
theorem Applied.idle {rule : Rule} (hcut : IsCut rule) {s out : Text} (h : Applied rule s out)
    (hlen : s.length ≤ out.length) (b : Option Char) : Idle rule b s := by
  induction h generalizing b with
  | nil => exact .nil
  | quoted hq h ih =>
    refine .quoted hq (ih ?_ _)
    rw [← Text.quoted?_append hq, List.length_append, List.length_append] at hlen
    exact Nat.le_of_add_le_add_left hlen
  | replaced hq hrule h ih =>
    obtain ⟨old, rfl, -, hless⟩ := hcut.shorter hrule
    have := (h.sublist hcut).length_le
    rw [List.length_append, List.length_append] at hlen
    omega
  | copied hq hrule h ih =>
    exact .copied hq (by rw [hcut.blind, hrule]) (ih (Nat.le_of_succ_le_succ hlen) _)

theorem IsCut.outsideQuotes_sublist {rule : Rule} (hcut : IsCut rule) (s : Text) :
    (Cleanup.outsideQuotes rule s).Sublist s :=
  (hcut.applied none s).sublist hcut

theorem IsCut.outsideQuotes_eq_self_iff {rule : Rule} (hcut : IsCut rule) {s : Text} :
    Cleanup.outsideQuotes rule s = s ↔ Idle rule none s := by
  constructor
  · intro h
    exact (hcut.applied none s).idle hcut (Nat.le_of_eq (congrArg List.length h.symm)) none
  · exact fun h => h.apply_eq

/-- What the rule for block comments finds: a comment that is closed. -/
theorem blockComment_eq_some {b : Option Char} {s new rest : Text}
    (h : Cleanup.blockComment b s = some (new, rest)) :
    ∃ body, s = '/' :: '*' :: (body ++ rest) ∧ new = [] := by
  unfold Cleanup.blockComment at h
  split at h
  · rename_i piece hpiece
    unfold Scan.blockComment? at hpiece
    split at hpiece
    · split at hpiece
      · rename_i body rest hclose
        cases hpiece
        cases h
        exact ⟨body, by rw [Scan.closeComment?_append hclose], rfl⟩
      · cases hpiece
    · cases hpiece
  · cases h

theorem blockComment_of_ne {c : Char} (hc : c ≠ '/') (b : Option Char) (s : Text) :
    Cleanup.blockComment b (c :: s) = none := by
  cases hsome : Cleanup.blockComment b (c :: s) with
  | none => rfl
  | some p =>
    obtain ⟨body, hs, -⟩ := blockComment_eq_some hsome
    exact absurd (List.cons.inj hs).1 hc

theorem isCut_blockComment : IsCut Cleanup.blockComment where
  blind _ _ := rfl
  shorter {s new rest} h := by
    obtain ⟨body, rfl, rfl⟩ := blockComment_eq_some h
    exact ⟨'/' :: '*' :: body, rfl, List.nil_sublist _, Nat.zero_lt_succ _⟩

/-- What the rule for line comments finds: two hyphens, with at most one line end
behind the end of their line. -/
theorem lineComment_eq_some {b : Option Char} {s new rest : Text}
    (h : Cleanup.lineComment b s = some (new, rest)) :
    ∃ t, s = '-' :: '-' :: t ∧ new = [] ∧ rest = t.dropWhile (· != '\n') := by
  unfold Cleanup.lineComment at h
  split at h
  · cases h
  · rename_i t ht
    dsimp only at h
    split at h
    · cases h
      exact ⟨t, Text.after?_eq_some ht, rfl, rfl⟩
    · cases h

theorem lineComment_of_oneLine {t : Text} (ht : ∀ c ∈ t, c ≠ '\n') (b : Option Char) :
    Cleanup.lineComment b ('-' :: '-' :: t) = some ([], []) := by
  have hdrop : t.dropWhile (· != '\n') = [] := by
    have := (stops_nil (· != '\n')).dropWhile_append (v := t) fun c hc => by simpa using ht c hc
    rwa [List.append_nil] at this
  simp [Cleanup.lineComment, Text.after?, hdrop, Text.atLastLineEnd]

theorem lineComment_of_isBlank {c : Char} (hc : Text.isBlank c = true) (s : Text) :
    Cleanup.lineComment none (c :: s) = none := by
  cases hsome : Cleanup.lineComment none (c :: s) with
  | none => rfl
  | some p =>
    obtain ⟨t, hs, -, -⟩ := lineComment_eq_some hsome
    cases hs
    exact absurd hc (by decide)

theorem isCut_lineComment : IsCut Cleanup.lineComment where
  blind _ _ := rfl
  shorter {s new rest} h := by
    obtain ⟨t, rfl, rfl, rfl⟩ := lineComment_eq_some h
    refine ⟨'-' :: '-' :: t.takeWhile (· != '\n'), ?_, List.nil_sublist _, Nat.zero_lt_succ _⟩
    rw [List.cons_append, List.cons_append, List.takeWhile_append_dropWhile]

/-- What the rule for commas finds: white space, and a comma behind it. -/
theorem spaceBeforeComma_eq_some {b : Option Char} {s new rest : Text}
    (h : Cleanup.spaceBeforeComma b s = some (new, rest)) :
    ∃ c g, s = c :: g ++ ',' :: rest ∧ new = [','] ∧ ∀ d ∈ c :: g, Text.isBlank d = true := by
  unfold Cleanup.spaceBeforeComma at h
  cases s with
  | nil => cases h
  | cons c s =>
    by_cases hc : Text.isBlank c = true
    · have hsplit := List.takeWhile_append_dropWhile (p := Text.isBlank) (l := s)
      cases hdrop : s.dropWhile Text.isBlank with
      | nil => simp [Rule.blanks?, hc, hdrop, Rule.char?] at h
      | cons d t =>
        by_cases hd : ',' = d
        · subst hd
          simp only [Rule.blanks?, hc, hdrop, Rule.char?, if_true, Option.bind_some,
            Option.some.injEq, Prod.mk.injEq] at h
          obtain ⟨rfl, rfl⟩ := h
          refine ⟨c, s.takeWhile Text.isBlank, ?_, rfl, ?_⟩
          · rw [hdrop] at hsplit
            rw [List.cons_append, hsplit]
          · intro d hd
            rcases List.mem_cons.1 hd with rfl | hd
            · exact hc
            · exact List.mem_takeWhile_imp hd
        · simp [Rule.blanks?, hc, hdrop, Rule.char?, hd] at h
    · simp [Rule.blanks?, hc] at h

theorem spaceBeforeComma_of_blanks {c : Char} {g : Text} (hc : Text.isBlank c = true)
    (hg : ∀ d ∈ g, Text.isBlank d = true) (b : Option Char) (r : Text) :
    Cleanup.spaceBeforeComma b (c :: (g ++ ',' :: r)) = some ([','], r) := by
  have hdrop : (g ++ ',' :: r).dropWhile Text.isBlank = ',' :: r :=
    Stops.dropWhile_append (stops_cons.2 (by decide)) hg
  simp [Cleanup.spaceBeforeComma, Rule.blanks?, hc, hdrop, Rule.char?]

theorem isCut_spaceBeforeComma : IsCut Cleanup.spaceBeforeComma where
  blind _ _ := rfl
  shorter {s new rest} h := by
    obtain ⟨c, g, rfl, rfl, -⟩ := spaceBeforeComma_eq_some h
    refine ⟨c :: g ++ [','], by simp, ?_, by simp⟩
    exact List.sublist_append_right _ _

/-! ## Quoted text in a thinned text -/

theorem quoted?_eq_some {s part rest : Text} (h : Text.quoted? s = some (part, rest)) :
    ∃ c q body t, Text.closerOf c = some q ∧ s = c :: t ∧ part = c :: body ∧
      Text.closeQuote? q t = some (body, rest) := by
  unfold Text.quoted? at h
  split at h
  · cases h
  · rename_i c t
    split at h
    · cases h
    · rename_i q hq
      split at h
      · rename_i body rest hclose
        cases h
        exact ⟨c, q, body, t, hq, rfl, rfl, hclose⟩
      · cases h

theorem quoted?_thinned {s part rest rest' : Text} (h : Text.quoted? s = some (part, rest))
    (ht : Thinned rest rest') : Text.quoted? (part ++ rest') = some (part, rest') := by
  obtain ⟨c, q, body, t, hq, rfl, rfl, hclose⟩ := quoted?_eq_some h
  simp [Text.quoted?, hq, closeQuote?_thinned (isSeparator_closer hq) hclose ht]

theorem quoted?_eq_none_thinned {c : Char} {s s' : Text} (h : Text.quoted? (c :: s) = none)
    (ht : Thinned s s') : Text.quoted? (c :: s') = none := by
  cases hq : Text.closerOf c with
  | none => exact quoted?_eq_none hq s'
  | some q =>
    have hnone : Text.closeQuote? q s = none := by
      cases hclose : Text.closeQuote? q s with
      | none => rfl
      | some p => simp [Text.quoted?, hq, hclose] at h
    have hmem := ht.not_mem (isSeparator_closer hq) (closeQuote?_eq_none_iff.1 hnone)
    simp [Text.quoted?, hq, closeQuote?_eq_none_iff.2 hmem]

theorem endsFull_quoted? {s part rest : Text} (h : Text.quoted? s = some (part, rest)) :
    EndsFull part := by
  obtain ⟨c, q, body, t, hq, rfl, rfl, hclose⟩ := quoted?_eq_some h
  obtain ⟨n, rfl⟩ := (quotedBody_of_closeQuote? hclose).eq_double
  refine ⟨c :: Text.double q n, q, rfl, ?_⟩
  cases hblank : Text.isBlank q with
  | false => rfl
  | true =>
    have := isSeparator_closer hq
    rw [isSeparator_of_isBlank hblank] at this
    cases this

/-! ## Idle rules -/

theorem Idle.of_quoted {rule : Rule} {b : Option Char} {s part rest : Text} (h : Idle rule b s)
    (hq : Text.quoted? s = some (part, rest)) : Idle rule part.getLast? rest := by
  cases h with
  | nil => cases hq
  | quoted hq' h =>
    rw [hq] at hq'
    cases hq'
    exact h
  | copied hq' hrule h =>
    rw [hq] at hq'
    cases hq'

theorem Idle.of_cons {rule : Rule} {b : Option Char} {c : Char} {s : Text}
    (h : Idle rule b (c :: s)) (hq : Text.quoted? (c :: s) = none) :
    rule b (c :: s) = none ∧ Idle rule (some c) s := by
  cases h with
  | quoted hq' h =>
    rw [hq] at hq'
    cases hq'
  | copied hq' hrule h => exact ⟨hrule, h⟩

theorem IsCut.idle_behind {rule : Rule} (hcut : IsCut rule) {b : Option Char} {s : Text}
    (h : Idle rule b s) (b' : Option Char) : Idle rule b' s := by
  cases h with
  | nil => exact .nil
  | quoted hq h => exact .quoted hq h
  | copied hq hrule h =>
    refine .copied hq ?_ h
    rw [hcut.blind, ← hcut.blind b, hrule]

theorem closerOf_of_isBlank {c : Char} (h : Text.isBlank c = true) : Text.closerOf c = none := by
  have hne : ∀ q, Text.isBlank q = false → c ≠ q := by
    rintro q hq rfl
    rw [h] at hq
    cases hq
  simp [Text.closerOf, hne '\'' (by decide), hne '"' (by decide), hne '`' (by decide),
    hne '[' (by decide)]

/-- A rule that is idle on a text is idle behind a start of it without quotes. -/
theorem Idle.of_append {rule : Rule} {b : Option Char} {v r : Text}
    (hv : ∀ c ∈ v, Text.closerOf c = none) (h : Idle rule b (v ++ r)) : ∃ b', Idle rule b' r := by
  induction v generalizing b with
  | nil => exact ⟨b, h⟩
  | cons c v ih =>
    have hc := quoted?_eq_none (hv c List.mem_cons_self) (v ++ r)
    exact ih (fun d hd => hv d (List.mem_cons_of_mem c hd)) (h.of_cons hc).2

/-! ## The passes over a single line -/

theorem lineComment_thinned {c : Char} {s s' : Text} (hone : ∀ d ∈ c :: s, d ≠ '\n')
    (h : Cleanup.lineComment none (c :: s) = none) (ht : Thinned s s') (b : Option Char) :
    Cleanup.lineComment b (c :: s') = none := by
  cases hsome : Cleanup.lineComment b (c :: s') with
  | none => rfl
  | some p =>
    obtain ⟨new, rest⟩ := p
    obtain ⟨t, hs', -, -⟩ := lineComment_eq_some hsome
    cases hs'
    obtain ⟨r, rfl, -⟩ := ht.of_cons (by decide)
    rw [lineComment_of_oneLine fun d hd =>
      hone d (List.mem_cons_of_mem _ (List.mem_cons_of_mem _ hd))] at h
    cases h

theorem Applied.thinned_lineComment {s out : Text} (h : Applied Cleanup.lineComment s out)
    (hone : ∀ c ∈ s, c ≠ '\n') : Thinned s out := by
  induction h with
  | nil => exact .stop []
  | quoted hq h ih =>
    have happ := Text.quoted?_append hq
    rw [← happ] at hone ⊢
    exact .append _ (ih fun c hc => hone c (List.mem_append_right _ hc))
  | @replaced s new rest out hq hrule h ih =>
    obtain ⟨t, rfl, rfl, -⟩ := lineComment_eq_some hrule
    rw [lineComment_of_oneLine fun c hc =>
      hone c (List.mem_cons_of_mem _ (List.mem_cons_of_mem _ hc))] at hrule
    cases hrule
    rw [List.sublist_nil.1 (h.sublist isCut_lineComment)]
    exact .stop _
  | copied hq hrule h ih => exact .keep _ (ih fun c hc => hone c (List.mem_cons_of_mem _ hc))

theorem Applied.thinned_spaceBeforeComma {s out : Text}
    (h : Applied Cleanup.spaceBeforeComma s out) : Thinned s out := by
  induction h with
  | nil => exact .stop []
  | quoted hq h ih =>
    rw [← Text.quoted?_append hq]
    exact .append _ ih
  | replaced hq hrule h ih =>
    obtain ⟨c, g, rfl, rfl, -⟩ := spaceBeforeComma_eq_some hrule
    have := Thinned.gap (c := ',') (by decide) (c :: g ++ [',']) ih
    rwa [List.append_assoc] at this
  | copied hq hrule h ih => exact .keep _ ih

theorem Applied.idle_lineComment {s out : Text} (h : Applied Cleanup.lineComment s out)
    (hone : ∀ c ∈ s, c ≠ '\n') (b : Option Char) : Idle Cleanup.lineComment b out := by
  induction h generalizing b with
  | nil => exact .nil
  | quoted hq h ih =>
    have hrest := fun c hc => hone c (Text.quoted?_append hq ▸ List.mem_append_right _ hc)
    exact .quoted (quoted?_thinned hq (h.thinned_lineComment hrest)) (ih hrest _)
  | @replaced s new rest out hq hrule h ih =>
    obtain ⟨t, rfl, rfl, rfl⟩ := lineComment_eq_some hrule
    exact ih (fun c hc => hone c (List.mem_cons_of_mem _ (List.mem_cons_of_mem _
      ((List.dropWhile_suffix _).subset hc)))) b
  | copied hq hrule h ih =>
    have hrest := fun c hc => hone c (List.mem_cons_of_mem _ hc)
    have hthin := h.thinned_lineComment hrest
    exact .copied (quoted?_eq_none_thinned hq hthin) (lineComment_thinned hone hrule hthin b)
      (ih hrest _)

/-- Taking white space out before commas brings no two hyphens together. -/
theorem Applied.keeps_lineComment_idle {s out : Text} (h : Applied Cleanup.spaceBeforeComma s out)
    (hone : ∀ c ∈ s, c ≠ '\n') (b : Option Char) (hidle : Idle Cleanup.lineComment b s) :
    Idle Cleanup.lineComment b out := by
  induction h generalizing b with
  | nil => exact .nil
  | quoted hq h ih =>
    exact .quoted (quoted?_thinned hq h.thinned_spaceBeforeComma)
      (ih (fun c hc => hone c (Text.quoted?_append hq ▸ List.mem_append_right _ hc)) _
        (hidle.of_quoted hq))
  | @replaced s new rest out hq hrule h ih =>
    obtain ⟨c, g, rfl, rfl, hblank⟩ := spaceBeforeComma_eq_some hrule
    -- No quote opens up to the comma, so the rule is idle behind it as well.
    have hplain : ∀ d ∈ c :: g ++ [','], Text.closerOf d = none := by
      intro d hd
      rcases List.mem_append.1 hd with hd | hd
      · exact closerOf_of_isBlank (hblank d hd)
      · rw [List.mem_singleton.1 hd]
        decide
    obtain ⟨b', hrest⟩ := Idle.of_append (r := rest) hplain (by rwa [List.append_assoc])
    refine .copied (quoted?_eq_none (by decide) _) ?_
      (ih (fun d hd => hone d (List.mem_append_right _ (List.mem_cons_of_mem _ hd))) _
        (isCut_lineComment.idle_behind hrest _))
    cases hsome : Cleanup.lineComment b (',' :: ([] ++ out)) with
    | none => rfl
    | some p =>
      obtain ⟨t, ht, -, -⟩ := lineComment_eq_some hsome
      cases ht
  | copied hq hrule h ih =>
    have hthin := h.thinned_spaceBeforeComma
    obtain ⟨hnone, hrest⟩ := hidle.of_cons hq
    rw [isCut_lineComment.blind] at hnone
    exact .copied (quoted?_eq_none_thinned hq hthin) (lineComment_thinned hone hnone hthin b)
      (ih (fun c hc => hone c (List.mem_cons_of_mem _ hc)) _ hrest)

/-- A comma comes next, or white space and then a comma. -/
def CommaAhead (s : Text) : Prop := ∃ g r, s = g ++ ',' :: r ∧ ∀ c ∈ g, Text.isBlank c = true

theorem commaAhead_cons {c : Char} {s : Text} :
    CommaAhead (c :: s) ↔ c = ',' ∨ Text.isBlank c = true ∧ CommaAhead s := by
  constructor
  · rintro ⟨g, r, hs, hg⟩
    cases g with
    | nil =>
      cases hs
      exact .inl rfl
    | cons d g =>
      cases hs
      exact .inr ⟨hg _ List.mem_cons_self, g, r, rfl, fun d hd => hg d (List.mem_cons_of_mem _ hd)⟩
  · rintro (rfl | ⟨hc, g, r, rfl, hg⟩)
    · exact ⟨[], s, rfl, List.forall_mem_nil _⟩
    · exact ⟨c :: g, r, rfl, List.forall_mem_cons.2 ⟨hc, hg⟩⟩

theorem spaceBeforeComma_eq_none_iff {b : Option Char} {c : Char} {s : Text} :
    Cleanup.spaceBeforeComma b (c :: s) = none ↔ ¬ (Text.isBlank c = true ∧ CommaAhead s) := by
  constructor
  · rintro h ⟨hc, g, r, rfl, hg⟩
    rw [spaceBeforeComma_of_blanks hc hg] at h
    cases h
  · intro h
    cases hsome : Cleanup.spaceBeforeComma b (c :: s) with
    | none => rfl
    | some p =>
      obtain ⟨d, g, hs, -, hg⟩ := spaceBeforeComma_eq_some hsome
      cases hs
      exact absurd ⟨hg _ List.mem_cons_self, g, _, rfl,
        fun e he => hg e (List.mem_cons_of_mem _ he)⟩ h

theorem Applied.commaAhead {s out : Text} (h : Applied Cleanup.spaceBeforeComma s out)
    (hout : CommaAhead out) : CommaAhead s := by
  induction h with
  | nil => exact hout
  | quoted hq h ih =>
    obtain ⟨c, q, body, t, hc, rfl, rfl, -⟩ := quoted?_eq_some hq
    rcases commaAhead_cons.1 hout with rfl | ⟨hblank, -⟩
    · cases hc
    · rw [closerOf_of_isBlank hblank] at hc
      cases hc
  | @replaced s new rest out hq hrule h ih =>
    obtain ⟨c, g, rfl, -, hg⟩ := spaceBeforeComma_eq_some hrule
    exact ⟨c :: g, rest, rfl, hg⟩
  | copied hq hrule h ih =>
    rcases commaAhead_cons.1 hout with rfl | ⟨hblank, hrest⟩
    · exact commaAhead_cons.2 (.inl rfl)
    · exact commaAhead_cons.2 (.inr ⟨hblank, ih hrest⟩)

theorem Applied.idle_spaceBeforeComma {s out : Text} (h : Applied Cleanup.spaceBeforeComma s out)
    (b : Option Char) : Idle Cleanup.spaceBeforeComma b out := by
  induction h generalizing b with
  | nil => exact .nil
  | quoted hq h ih => exact .quoted (quoted?_thinned hq h.thinned_spaceBeforeComma) (ih _)
  | @replaced s new rest out hq hrule h ih =>
    obtain ⟨c, g, rfl, rfl, -⟩ := spaceBeforeComma_eq_some hrule
    refine .copied (quoted?_eq_none (by decide) _) ?_ (ih _)
    exact spaceBeforeComma_eq_none_iff.2 fun hcomma => absurd hcomma.1 (by decide)
  | copied hq hrule h ih =>
    refine .copied (quoted?_eq_none_thinned hq h.thinned_spaceBeforeComma) ?_ (ih _)
    rw [spaceBeforeComma_eq_none_iff] at hrule ⊢
    exact fun hcomma => hrule ⟨hcomma.1, h.commaAhead hcomma.2⟩

/-- A rule that is idle on a line is idle on the line without white space at its
end, if it finds nothing new at places with less behind them. -/
theorem Idle.of_stripped {rule : Rule}
    (hrule : ∀ b c x y, (∀ d ∈ c :: (x ++ y), d ≠ '\n') → rule b (c :: (x ++ y)) = none →
      rule b (c :: x) = none)
    {b : Option Char} {p w : Text} (hone : ∀ c ∈ p ++ w, c ≠ '\n')
    (hw : ∀ c ∈ w, Text.isBlank c = true) (h : Idle rule b (p ++ w)) : Idle rule b p := by
  generalize hs : p ++ w = s at h
  induction h generalizing p with
  | nil =>
    rw [(List.append_eq_nil_iff.1 hs).1]
    exact .nil
  | @quoted b s part rest hq h ih =>
    have hpart := Text.quoted?_append hq
    rw [← hs] at hpart
    -- Quoted text ends full: none of the white space at the end is part of it.
    obtain ⟨x, rfl, rfl⟩ := (endsFull_quoted? hq).of_append hpart hw
    refine .quoted (quoted?_thinned hq (Thinned.left x w)) (ih (fun c hc => hone c ?_) rfl)
    rw [List.append_assoc]
    exact List.mem_append_right _ hc
  | @copied b c s hq hnone h ih =>
    cases p with
    | nil => exact .nil
    | cons d p =>
      cases hs
      exact .copied (quoted?_eq_none_thinned hq (.left p w)) (hrule b c p w hone hnone)
        (ih (fun d hd => hone d (List.mem_cons_of_mem _ hd)) rfl)

end Rule

/-! ## Cleaning a line twice -/

/-- What stripping takes off the end of a text is white space, and what it leaves
ends full. -/
theorem stripEnd_split (s : Text) :
    ∃ w, s = Text.stripEnd s ++ w ∧ (∀ c ∈ w, Text.isBlank c = true) ∧
      (Text.stripEnd s = [] ∨ EndsFull (Text.stripEnd s)) := by
  have hsplit := List.takeWhile_append_dropWhile (p := Text.isBlank) (l := s.reverse)
  refine ⟨(s.reverse.takeWhile Text.isBlank).reverse, ?_,
    fun c hc => List.mem_takeWhile_imp (List.mem_reverse.1 hc), ?_⟩
  · rw [Text.stripEnd, Text.trimEnd, ← List.reverse_append, hsplit, List.reverse_reverse]
  · unfold Text.stripEnd Text.trimEnd
    have hstops := stops_dropWhile Text.isBlank s.reverse
    cases hdrop : s.reverse.dropWhile Text.isBlank with
    | nil => exact .inl rfl
    | cons c t =>
      rw [hdrop, stops_cons] at hstops
      exact .inr ⟨t.reverse, c, List.reverse_cons, hstops⟩

namespace Cleanup

theorem line_sublist_blockComment (l : Text) : (line l).Sublist (outsideQuotes blockComment l) :=
  (isPrefix_trimEnd Text.isBlank _).sublist.trans
    ((Rule.isCut_spaceBeforeComma.outsideQuotes_sublist _).trans
      (Rule.isCut_lineComment.outsideQuotes_sublist _))

theorem line_sublist (l : Text) : (line l).Sublist l :=
  (line_sublist_blockComment l).trans (Rule.isCut_blockComment.outsideQuotes_sublist l)

theorem line_full (l : Text) : line l = [] ∨ EndsFull (line l) :=
  (stripEnd_split _).choose_spec.2.2

/-- In a cleaned line there is neither a line comment nor white space before a
comma. -/
theorem line_idle {l : Text} (hone : ∀ c ∈ l, c ≠ '\n') :
    Rule.Idle lineComment none (line l) ∧ Rule.Idle spaceBeforeComma none (line l) := by
  have hblock := Rule.isCut_blockComment.outsideQuotes_sublist l
  have hcomment := Rule.isCut_lineComment.applied none (outsideQuotes blockComment l)
  have hcomma := Rule.isCut_spaceBeforeComma.applied none
    (outsideQuotes lineComment (outsideQuotes blockComment l))
  have hone₁ : ∀ c ∈ outsideQuotes blockComment l, c ≠ '\n' :=
    fun c hc => hone c (hblock.subset hc)
  have hone₂ : ∀ c ∈ outsideQuotes lineComment (outsideQuotes blockComment l), c ≠ '\n' :=
    fun c hc => hone₁ c ((hcomment.sublist Rule.isCut_lineComment).subset hc)
  have hkeeps := hcomma.keeps_lineComment_idle hone₂ none (hcomment.idle_lineComment hone₁ none)
  have hidle := hcomma.idle_spaceBeforeComma none
  have hone₃ : ∀ c ∈ outsideQuotes spaceBeforeComma (outsideQuotes lineComment
      (outsideQuotes blockComment l)), c ≠ '\n' :=
    fun c hc => hone₂ c ((hcomma.sublist Rule.isCut_spaceBeforeComma).subset hc)
  unfold line
  -- Stripping the end comes last and undoes none of the passes.
  obtain ⟨w, hsplit, hw, -⟩ := stripEnd_split
    (outsideQuotes spaceBeforeComma (outsideQuotes lineComment (outsideQuotes blockComment l)))
  rw [hsplit] at hone₃
  constructor
  · refine Rule.Idle.of_stripped (fun b c x y hone h => ?_) hone₃ hw (hsplit ▸ hkeeps)
    exact Rule.lineComment_thinned hone (Rule.isCut_lineComment.blind b _ ▸ h) (.left x y) b
  · refine Rule.Idle.of_stripped (fun b c x y _ h => ?_) hone₃ hw (hsplit ▸ hidle)
    rw [Rule.spaceBeforeComma_eq_none_iff] at h ⊢
    rintro ⟨hc, g, r, rfl, hg⟩
    exact h ⟨hc, g, r ++ y, by simp, hg⟩

theorem idle_of_line_eq_self {l : Text} (h : line l = l) : Rule.Idle blockComment none l := by
  have hsub := line_sublist_blockComment l
  rw [h] at hsub
  exact Rule.isCut_blockComment.outsideQuotes_eq_self_iff.1
    ((Rule.isCut_blockComment.outsideQuotes_sublist _).eq_of_length_le hsub.length_le)

/-- A cleaned line without block comments has nothing more to clean. -/
theorem line_line {l : Text} (hone : ∀ c ∈ l, c ≠ '\n')
    (h : Rule.Idle blockComment none (line l)) : line (line l) = line l := by
  obtain ⟨hcomment, hcomma⟩ := line_idle hone
  have hstrip : Text.stripEnd (line l) = line l := by
    rcases line_full l with hnil | hfull
    · rw [hnil]
      rfl
    · exact stripEnd_of_endsFull hfull
  calc line (line l)
      = Text.stripEnd (outsideQuotes spaceBeforeComma (outsideQuotes lineComment (line l))) := by
        rw [line, Rule.isCut_blockComment.outsideQuotes_eq_self_iff.2 h]
    _ = Text.stripEnd (line l) := by
        rw [Rule.isCut_lineComment.outsideQuotes_eq_self_iff.2 hcomment,
          Rule.isCut_spaceBeforeComma.outsideQuotes_eq_self_iff.2 hcomma]
    _ = line l := hstrip

end Cleanup

/-! ## Lines and their text -/

theorem unixLines_no_return (s : Text) : ∀ c ∈ Text.unixLines s, c ≠ '\r' := by
  fun_induction Text.unixLines s with
  | case1 => exact List.forall_mem_nil _
  | case2 s ih => exact List.forall_mem_cons.2 ⟨by decide, ih⟩
  | case3 c s _ ih =>
    refine List.forall_mem_cons.2 ⟨?_, ih⟩
    split
    · decide
    · assumption

theorem splitOn_ne_nil (q : Char) (s : Text) : Text.splitOn q s ≠ [] := by
  fun_cases Text.splitOn q s <;> exact List.cons_ne_nil _ _

theorem join_splitOn (q : Char) (s : Text) : Text.join [q] (Text.splitOn q s) = s := by
  fun_induction Text.splitOn q s with
  | case1 => rfl
  | case2 s ih =>
    obtain ⟨l, ls, hsplit⟩ := List.exists_cons_of_ne_nil (splitOn_ne_nil q s)
    rw [hsplit, join_cons] at ih ⊢
    rw [List.flatMap_cons, List.nil_append, List.singleton_append, List.cons_append, ih]
  | case3 c s hc hsplit ih => exact absurd hsplit (splitOn_ne_nil q s)
  | case4 c s hc l ls hsplit ih =>
    rw [hsplit, join_cons] at ih
    rw [join_cons, List.cons_append, ih]

theorem of_mem_splitOn {q : Char} {s l : Text} (h : l ∈ Text.splitOn q s) : ∀ c ∈ l, c ≠ q := by
  fun_induction Text.splitOn q s generalizing l with
  | case1 =>
    rw [List.mem_singleton.1 h]
    exact List.forall_mem_nil _
  | case2 s ih =>
    rcases List.mem_cons.1 h with rfl | h
    · exact List.forall_mem_nil _
    · exact ih h
  | case3 c s hc hsplit ih => exact absurd hsplit (splitOn_ne_nil q s)
  | case4 c s hc m ls hsplit ih =>
    rw [hsplit] at ih
    rcases List.mem_cons.1 h with rfl | h
    · exact List.forall_mem_cons.2 ⟨hc, ih List.mem_cons_self⟩
    · exact ih (List.mem_cons_of_mem _ h)

theorem join_filter_sublist (separator : Text) (p : Text → Bool) (ls : List Text) :
    (Text.join separator (ls.filter p)).Sublist (Text.join separator ls) := by
  induction ls with
  | nil => exact .slnil
  | cons l ls ih =>
    rw [List.filter_cons, join_cons]
    split
    · rw [join_cons]
      exact (List.filter_sublist.flatMap _).append_left l
    · refine (ih.trans ?_).trans (List.sublist_append_right l _)
      cases ls with
      | nil => exact .slnil
      | cons m ls =>
        rw [join_cons, List.flatMap_cons, List.append_assoc]
        exact List.sublist_append_right _ _

theorem join_map_sublist (separator : Text) {f : Text → Text} (hf : ∀ l, (f l).Sublist l)
    (ls : List Text) : (Text.join separator (ls.map f)).Sublist (Text.join separator ls) := by
  cases ls with
  | nil => exact .slnil
  | cons l ls =>
    rw [List.map_cons, join_cons, join_cons, List.flatMap_map]
    exact (hf l).append (.flatMap_right ls fun m _ => (hf m).append_left separator)

namespace Cleanup

/-- The cleaned lines of a text, without the blank ones. -/
def cleanLines (s : Text) : List Text :=
  ((Text.splitOn '\n' s).map line).filter fun l => !(Text.strip l).isEmpty

theorem lines_eq (s : Text) :
    lines s = Text.join ['\n']
      (cleanLines (Text.strip (outsideQuotes blockComment (Text.unixLines s)))) := rfl

theorem of_mem_cleanLines {s m : Text} (h : m ∈ cleanLines s) :
    EndsFull m ∧ ∃ l, (∀ c ∈ l, c ≠ '\n') ∧ m = line l := by
  obtain ⟨hm, hfull⟩ := List.mem_filter.1 h
  obtain ⟨l, hl, rfl⟩ := List.mem_map.1 hm
  refine ⟨(line_full l).resolve_left ?_, l, of_mem_splitOn hl, rfl⟩
  intro hnil
  rw [hnil] at hfull
  cases hfull

theorem join_cleanLines_sublist_map (s : Text) :
    (Text.join ['\n'] (cleanLines s)).Sublist
      (Text.join ['\n'] ((Text.splitOn '\n' s).map line)) :=
  join_filter_sublist ['\n'] _ _

theorem join_map_line_sublist (s : Text) :
    (Text.join ['\n'] ((Text.splitOn '\n' s).map line)).Sublist s := by
  have := join_map_sublist ['\n'] line_sublist (Text.splitOn '\n' s)
  rwa [join_splitOn] at this

theorem strip_sublist (s : Text) : (Text.strip s).Sublist s := by
  have h : Text.strip s <:+: s := trim_infix _ s
  exact h.sublist

theorem lines_sublist_strip (s : Text) :
    (lines s).Sublist (Text.strip (outsideQuotes blockComment (Text.unixLines s))) :=
  (join_cleanLines_sublist_map _).trans (join_map_line_sublist _)

theorem lines_no_return (s : Text) : ∀ c ∈ lines s, c ≠ '\r' := by
  intro c hc
  have hsub := (lines_sublist_strip s).trans ((strip_sublist _).trans
    (Rule.isCut_blockComment.outsideQuotes_sublist _))
  exact unixLines_no_return s c (hsub.subset hc)

/-- The clean-up keeps a text exactly if each of its steps does, since every one
of them only takes characters away. -/
theorem lines_eq_self_iff {r : Text} (hr : ∀ c ∈ r, c ≠ '\r') :
    lines r = r ↔ outsideQuotes blockComment r = r ∧ Text.strip r = r ∧
      Text.join ['\n'] (cleanLines r) = r := by
  have hunix := unixLines_eq_self hr
  constructor
  · intro h
    have hlines := lines_sublist_strip r
    rw [hunix, h] at hlines
    have hblock : outsideQuotes blockComment r = r :=
      (Rule.isCut_blockComment.outsideQuotes_sublist r).eq_of_length_le
        (hlines.trans (strip_sublist _)).length_le
    rw [hblock] at hlines
    have hstrip := (strip_sublist r).eq_of_length_le hlines.length_le
    refine ⟨hblock, hstrip, ?_⟩
    rwa [lines_eq, hunix, hblock, hstrip] at h
  · rintro ⟨hblock, hstrip, hclean⟩
    rw [lines_eq, hunix, hblock, hstrip, hclean]

theorem line_eq_self_of_join {r l : Text} (h : Text.join ['\n'] (cleanLines r) = r)
    (hl : l ∈ Text.splitOn '\n' r) : line l = l := by
  have hsub := join_cleanLines_sublist_map r
  rw [h] at hsub
  have hjoin := (join_map_line_sublist r).eq_of_length_le hsub.length_le
  have hone : ∀ m ∈ (Text.splitOn '\n' r).map line, ∀ c ∈ m, c ≠ '\n' := by
    intro m hm
    obtain ⟨l, hl, rfl⟩ := List.mem_map.1 hm
    exact fun c hc => of_mem_splitOn hl c ((line_sublist l).subset hc)
  have hsplit := splitOn_join (by simpa using splitOn_ne_nil '\n' r) hone
  rw [hjoin] at hsplit
  exact List.map_inj_left.1 (hsplit.symm.trans (List.map_id _).symm) l hl

theorem cleanLines_join {ms : List Text} (hone : ∀ m ∈ ms, ∀ c ∈ m, c ≠ '\n')
    (hfull : ∀ m ∈ ms, EndsFull m) (hline : ∀ m ∈ ms, line m = m) :
    cleanLines (Text.join ['\n'] ms) = ms := by
  cases ms with
  | nil =>
    have hnil : line [] = [] := List.sublist_nil.1 (line_sublist [])
    simp [cleanLines, Text.join, Text.splitOn, hnil, Text.strip, Text.trim, Text.trimStart,
      Text.trimEnd]
  | cons m ms =>
    rw [cleanLines, splitOn_join (List.cons_ne_nil m ms) hone,
      List.map_congr_left (g := id) hline, List.map_id, List.filter_eq_self]
    intro l hl
    simpa using strip_ne_nil_of_endsFull (hfull l hl)

/-- White space can only be left at the front of joined lines that end full. -/
theorem strip_join_eq_self_iff {ms : List Text} (hfull : ∀ m ∈ ms, EndsFull m) :
    Text.strip (Text.join ['\n'] ms) = Text.join ['\n'] ms ↔
      Stops Text.isBlank (Text.join ['\n'] ms) := by
  have hend : Stops Text.isBlank (Text.join ['\n'] ms).reverse := by
    cases ms with
    | nil => exact stops_nil _
    | cons m ms =>
      obtain ⟨n, hn, t, ht⟩ := join_suffix ['\n'] (List.cons_ne_nil m ms)
      obtain ⟨x, c, rfl, hc⟩ := hfull n hn
      rw [← ht, ← List.append_assoc, List.reverse_append]
      exact stops_cons.2 hc
  exact trim_eq_self_iff.trans (and_iff_left hend)

/-- Cleaning a cleaned text keeps it exactly if it does not start with white space
and neither in the text nor in a line of it a block comment is left. -/
theorem lines_lines_eq_iff (s : Text) :
    lines (lines s) = lines s ↔
      Stops Text.isBlank (lines s) ∧ Rule.Idle blockComment none (lines s) ∧
        ∀ l ∈ Text.splitOn '\n' (lines s), Rule.Idle blockComment none l := by
  have hreturn := lines_no_return s
  have hclean : ∀ m ∈ cleanLines (Text.strip (outsideQuotes blockComment (Text.unixLines s))),
      EndsFull m ∧ (∀ c ∈ m, c ≠ '\n') ∧ (Rule.Idle blockComment none m → line m = m) := by
    intro m hm
    obtain ⟨hfull, l, hone, rfl⟩ := of_mem_cleanLines hm
    exact ⟨hfull, fun c hc => hone c ((line_sublist l).subset hc), line_line hone⟩
  -- From here on only the cleaned lines count, not the text that they come from.
  rw [lines_eq s] at hreturn ⊢
  generalize cleanLines (Text.strip (outsideQuotes blockComment (Text.unixLines s))) = ms
    at hreturn hclean ⊢
  have hone := fun m hm => (hclean m hm).2.1
  rw [lines_eq_self_iff hreturn, Rule.isCut_blockComment.outsideQuotes_eq_self_iff,
    strip_join_eq_self_iff fun m hm => (hclean m hm).1]
  constructor
  · rintro ⟨hblock, hstrip, hlines⟩
    exact ⟨hstrip, hblock, fun l hl => idle_of_line_eq_self (line_eq_self_of_join hlines hl)⟩
  · rintro ⟨hstrip, hblock, hlines⟩
    refine ⟨hblock, hstrip, congrArg _ (cleanLines_join hone (fun m hm => (hclean m hm).1) ?_)⟩
    intro m hm
    rw [splitOn_join (List.ne_nil_of_mem hm) hone] at hlines
    exact (hclean m hm).2.2 (hlines m hm)

/-- The first line goes for its comment, and the indent of the second one stays
until the text is cleaned again. -/
example : lines "-- a\n  b".toList = "  b".toList ∧ lines "  b".toList = "b".toList := by decide +kernel

end Cleanup
end TableDialects
