import TableDialects.Proofs.Cleanup.Tokens
import TableDialects.Proofs.Cleanup.TypeSpace
import TableDialects.Proofs.Token.Rules

/- BOOLEAN with a width in any text. The rule puts letters in the place of letters, and
   the scanner hardly tells letters apart: texts that agree but for ASCII letters
   (`Alike`) are cut into tokens at the same places. So the rule keeps the tokens
   of a text, but for the spelling of words and of quoted text (`Atom.exists_widened`). Quoted
   text is kept as well exactly if it does not name BOOLEAN with that width
   (`Cleanup.tightTypes_keeps_quoted_iff`). -/
namespace TableDialects

open Scan

/-! ## Texts that agree but for letters -/

namespace Text

/-- The character, with one letter for all ASCII letters. -/
def mask (c : Char) : Char := if isAsciiLetter c then 'a' else c

theorem toNat_lt_of_isAsciiLetter {c : Char} (h : isAsciiLetter c = true) : c.toNat < 128 := by
  simp only [isAsciiLetter, Bool.or_eq_true, Bool.and_eq_true, decide_eq_true_eq] at h
  omega

/-- What is the same for all ASCII letters is the same for a character and its mask. -/
theorem apply_mask {α : Type} {f : Char → α}
    (h : ∀ n < 128, isAsciiLetter (Char.ofNat n) = true → f (Char.ofNat n) = f 'a') (c : Char) :
    f (mask c) = f c := by
  unfold mask
  split
  · rename_i hc
    exact (of_ascii (p := fun c => isAsciiLetter c = true → f c = f 'a') h (toNat_lt_of_isAsciiLetter hc) hc).symm
  · rfl

theorem eq_of_mask {c q : Char} (h : mask c = mask q) (hq : isAsciiLetter q = false) : c = q := by
  rw [show mask q = q from if_neg (Bool.eq_false_iff.1 hq)] at h
  unfold mask at h
  split at h
  · rw [← h] at hq
    cases hq
  · exact h

end Text

/-- The texts agree, place by place, but for ASCII letters. -/
def Alike (s t : Text) : Prop := s.map Text.mask = t.map Text.mask

namespace Alike
variable {s t : Text} {c q : Char}

theorem nil_left (h : Alike [] t) : t = [] := List.map_eq_nil_iff.1 h.symm

theorem of_cons (h : Alike (c :: s) t) : ∃ d t', t = d :: t' ∧ Text.mask c = Text.mask d ∧ Alike s t' := by
  cases t with
  | nil => cases h
  | cons d t =>
    obtain ⟨hc, hs⟩ := List.cons.inj h
    exact ⟨d, t, rfl, hc, hs⟩

theorem of_cons_eq (h : Alike (q :: s) t) (hq : Text.isAsciiLetter q = false) : ∃ t', t = q :: t' ∧ Alike s t' := by
  obtain ⟨d, t', rfl, hmask, h⟩ := h.of_cons
  rw [Text.eq_of_mask hmask.symm hq]
  exact ⟨t', rfl, h⟩

theorem append {s' t' : Text} (h : Alike s t) (h' : Alike s' t') : Alike (s ++ s') (t ++ t') := by
  unfold Alike at h h' ⊢
  rw [List.map_append, List.map_append, h, h']

theorem length_eq (h : Alike s t) : s.length = t.length := by
  have hlen := congrArg List.length h
  rwa [List.length_map, List.length_map] at hlen

theorem forall_mem {p : Char → Bool} (hp : ∀ c, p (Text.mask c) = p c) (h : Alike s t)
    (hs : ∀ c ∈ s, p c = true) : ∀ c ∈ t, p c = true := by
  intro d hd
  have hmem : Text.mask d ∈ s.map Text.mask := by
    rw [h]
    exact List.mem_map_of_mem hd
  obtain ⟨c, hc, hmask⟩ := List.mem_map.1 hmem
  rw [← hp d, ← hmask, hp]
  exact hs c hc

theorem stops {p : Char → Bool} (hp : ∀ c, p (Text.mask c) = p c) (h : Alike s t) (hs : Stops p s) :
    Stops p t := by
  cases s with
  | nil =>
    rw [h.nil_left]
    exact stops_nil p
  | cons c s =>
    obtain ⟨d, t', rfl, hmask, -⟩ := h.of_cons
    rw [stops_cons] at hs ⊢
    rw [← hp, ← hmask, hp, hs]

theorem not_mem (h : Alike s t) (hq : Text.isAsciiLetter q = false) (hs : q ∉ s) : q ∉ t := by
  intro ht
  have hmem : Text.mask q ∈ s.map Text.mask := by
    rw [h]
    exact List.mem_map_of_mem ht
  obtain ⟨c, hc, hmask⟩ := List.mem_map.1 hmem
  exact hs (Text.eq_of_mask hmask hq ▸ hc)

theorem runsOn (h : Alike s t) (hq : Text.isAsciiLetter q = false) (hs : runsOn q s = false) :
    TableDialects.runsOn q t = false := by
  cases s with
  | nil =>
    rw [h.nil_left]
    rfl
  | cons c s =>
    obtain ⟨d, t', rfl, hmask, hrest⟩ := h.of_cons
    rw [TableDialects.runsOn, Bool.and_eq_false_iff, beq_eq_false_iff_ne, ← Bool.not_eq_true,
      List.contains_iff_mem] at hs ⊢
    rcases hs with hc | hs
    · refine .inl fun hd => hc ?_
      rw [hd] at hmask
      exact Text.eq_of_mask hmask hq
    · exact .inr (hrest.not_mem hq hs)

theorem closeComment? (h : Alike s t) (hs : closeComment? s = none) : Scan.closeComment? t = none := by
  fun_induction Scan.closeComment? s generalizing t with
  | case1 =>
    rw [h.nil_left]
    rfl
  | case2 c =>
    obtain ⟨d, t', rfl, -, h⟩ := h.of_cons
    rw [h.nil_left]
    rfl
  | case3 => cases hs
  | case4 => cases hs
  | case5 c d s hopen hnone ih =>
    obtain ⟨c', t', rfl, hc, h'⟩ := h.of_cons
    obtain ⟨d', t'', rfl, hd, -⟩ := h'.of_cons
    have hnot : (c' == '*' && d' == '/') = false := by
      rw [← Bool.not_eq_true]
      intro hclose
      rw [Bool.and_eq_true, beq_iff_eq, beq_iff_eq] at hclose
      refine hopen ?_
      rw [hclose.1] at hc
      rw [hclose.2] at hd
      rw [Text.eq_of_mask hc (by decide), Text.eq_of_mask hd (by decide)]
      rfl
    rw [Scan.closeComment?, hnot, if_neg Bool.false_ne_true, ih h' hnone]

theorem comment? (h : Alike s t) (hs : comment? (c :: s) = none) : Scan.comment? (c :: t) = none := by
  cases s with
  | nil =>
    rw [h.nil_left]
    exact comment?_single c
  | cons d s =>
    obtain ⟨d', t', rfl, hmask, hrest⟩ := h.of_cons
    rw [comment?_cons] at hs ⊢
    -- Marks are masked by themselves alone.
    have hmark : ∀ {m : Char}, Text.isAsciiLetter m = false → d' = m → d = m := by
      rintro m hm rfl
      exact Text.eq_of_mask hmask hm
    split
    · rename_i hline
      rw [if_pos ⟨hline.1, hmark (by decide) hline.2⟩] at hs
      cases hs
    · split
      · rename_i hblock
        have hd := hmark (by decide) hblock.2
        rw [if_neg (fun hline => absurd (hd.symm.trans hline.2) (by decide)), if_pos ⟨hblock.1, hd⟩,
          Option.map_eq_none_iff] at hs
        rw [hrest.closeComment? hs]
        rfl
      · rfl

theorem quotedBody (h : Alike s t) (hq : Text.isAsciiLetter q = false) (hs : QuotedBody q s) : QuotedBody q t := by
  induction hs generalizing t with
  | close =>
    obtain ⟨t', rfl, hrest⟩ := h.of_cons_eq hq
    rw [hrest.nil_left]
    exact .close
  | pair hs ih =>
    obtain ⟨t', rfl, hpair⟩ := h.of_cons_eq hq
    obtain ⟨t'', rfl, hrest⟩ := hpair.of_cons_eq hq
    exact .pair (ih hrest)
  | other hc hs ih =>
    obtain ⟨d, t', rfl, hmask, hrest⟩ := h.of_cons
    refine .other ?_ (ih hrest)
    rintro rfl
    exact hc (Text.eq_of_mask hmask hq)

end Alike

/-! ## Tokens in front of such texts -/

/-- A text that may come to stand behind a token in the place of another: it agrees with
it but for letters, and it starts alike, or with the letter I. -/
structure Replaces (r r' : Text) : Prop where
  alike : Alike r r'
  head : ∀ c ∈ r'.head?, c = 'I' ∨ c ∈ r.head?

namespace Replaces
variable {r r' : Text}

/-- No exponent appears: its letter would have been there before. -/
theorem exponentLength (h : Replaces r r') (hr : exponentLength r = 0) : Scan.exponentLength r' = 0 := by
  apply Decidable.byContradiction
  intro hne
  obtain ⟨lead, ds, y, ⟨e, he, hlead⟩, hds, hdigits, -, rfl⟩ := exponent_cases hne
  obtain ⟨d, ds, rfl⟩ := List.exists_cons_of_ne_nil hds
  have hd := hdigits d List.mem_cons_self
  have hdletter : Text.isAsciiLetter d = false := by
    cases hletter : Text.isAsciiLetter d with
    | false => rfl
    | true =>
      have := Text.of_ascii (p := fun c => Text.isAsciiLetter c = true → Text.isDigit c = false) (by decide)
        (Text.toNat_lt_of_isAsciiLetter hletter) hletter
      rw [hd] at this
      cases this
  -- The text before had the same start, up to the first digit.
  have hstart : ∀ {rest : Text}, Replaces r (e :: rest) → ∃ r₁, r = e :: r₁ ∧ Alike rest r₁ := by
    intro rest h
    have hne : e ≠ 'I' := by rcases he with rfl | rfl <;> decide
    have hhead := (h.head e rfl).resolve_left hne
    obtain ⟨c, r₁, rfl, -, hrest⟩ := Alike.of_cons h.alike.symm
    cases hhead
    exact ⟨r₁, rfl, hrest⟩
  have hdigit : ∀ {rest : Text}, Alike (d :: ds ++ y) rest → ∃ x, rest = d :: x := fun hrest => by
    obtain ⟨x, rfl, -⟩ := hrest.of_cons_eq hdletter
    exact ⟨x, rfl⟩
  rcases hlead with rfl | rfl | rfl
  · obtain ⟨r₁, rfl, hrest⟩ := hstart h
    obtain ⟨x, rfl⟩ := hdigit hrest
    exact exponentLength_ne_zero ⟨e, he, .inl rfl⟩ hd x hr
  · obtain ⟨r₁, rfl, hrest⟩ := hstart h
    obtain ⟨r₂, rfl, hsign⟩ := hrest.of_cons_eq (by decide)
    obtain ⟨x, rfl⟩ := hdigit hsign
    exact exponentLength_ne_zero ⟨e, he, .inr (.inl rfl)⟩ hd x hr
  · obtain ⟨r₁, rfl, hrest⟩ := hstart h
    obtain ⟨r₂, rfl, hsign⟩ := hrest.of_cons_eq (by decide)
    obtain ⟨x, rfl⟩ := hdigit hsign
    exact exponentLength_ne_zero ⟨e, he, .inr (.inr rfl)⟩ hd x hr

theorem readsNumber (h : Replaces r r') {v : Text} (hv : ReadsNumber v r) : ReadsNumber v r' := by
  have hdigit := h.alike.stops (p := Text.isDigit) (Text.apply_mask (by decide))
  cases hv with
  | plain hm hr he =>
    refine .plain hm ⟨hdigit hr.1, fun hpoint => ?_⟩ (h.exponentLength he)
    exact h.alike.stops (Text.apply_mask (f := (· == '.')) (by decide)) (hr.2 hpoint)
  | scaled hm hl hne hd hr => exact .scaled hm hl hne hd (hdigit hr)

theorem isPair_mask (c : Char) : ∀ d, isPair c (Text.mask d) = isPair c d := by
  have hmarks : ∀ d, ((Text.mask d == ':') = (d == ':') ∧ (Text.mask d == '>') = (d == '>') ∧
      (Text.mask d == '=') = (d == '=') ∧ (Text.mask d == '|') = (d == '|')) := fun d =>
    ⟨Text.apply_mask (f := (· == ':')) (by decide) d, Text.apply_mask (f := (· == '>')) (by decide) d,
      Text.apply_mask (f := (· == '=')) (by decide) d, Text.apply_mask (f := (· == '|')) (by decide) d⟩
  intro d
  obtain ⟨hcolon, hgreater, hequal, hbar⟩ := hmarks d
  unfold isPair
  rw [hcolon, hgreater, hequal, hbar]

theorem closerOf_letter {c q : Char} (h : Text.closerOf c = some q) : Text.isAsciiLetter q = false := by
  rcases closerOf_eq_some_iff.1 h with ⟨rfl, rfl⟩ | ⟨rfl, rfl⟩ | ⟨rfl, rfl⟩ | ⟨rfl, rfl⟩ <;> decide

theorem continuesWord_mask : ∀ c, continuesWord (Text.mask c) = continuesWord c := Text.apply_mask (by decide)

/-- A token is read in front of what replaces the text behind it. -/
theorem tokenRule (h : Replaces r r') {k : TokenKind} {v : Text} (hv : TokenRule r k v) : TokenRule r' k v := by
  cases hv with
  | string hlead hr => exact .string hlead (h.alike.runsOn (by decide) hr)
  | ident ho hr =>
    refine .ident ho (h.alike.runsOn ?_ hr)
    rcases ho with ⟨-, rfl⟩ | ⟨-, rfl⟩ | ⟨-, rfl⟩ <;> decide
  | number hn => exact .number (h.readsNumber hn)
  | word hc hw hr hn =>
    exact .word hc hw (h.alike.stops continuesWord_mask hr) fun heq => h.alike.runsOn (by decide) (hn heq)
  | punct hc hr => exact .punct hc fun heq => h.alike.stops (Text.apply_mask (by decide)) (hr heq)
  | pair hpair => exact .pair hpair
  | op hblank hdigit hword hmark hpair hquote hcomment =>
    exact .op hblank hdigit hword hmark (h.alike.stops (isPair_mask _) hpair)
      (fun q hq => h.alike.not_mem (closerOf_letter hq) (hquote q hq)) (h.alike.comment? hcomment)

end Replaces

/-! ## What the rule does -/

namespace Rule

theorem matched_width : Text.Matched "BOOLEAN(11)".toList :=
  ⟨⟨by decide, by decide +kernel, by decide +kernel⟩, by decide⟩

/-- The rule finds BOOLEAN with its width, letter case apart, where a word starts. -/
theorem booleanWidth_eq_some_iff {b : Option Char} {s new rest : Text} :
    Cleanup.booleanWidth b s = some (new, rest) ↔ new = "INTEGER(11)".toList ∧ Text.atBoundary b s = true ∧
      ∃ m, s = m ++ rest ∧ Text.upper m = "BOOLEAN(11)".toList := by
  rw [← matched_width.afterWord?_eq_some fun _ => id]
  constructor
  · intro h
    obtain ⟨hboundary, hafter, hnew⟩ := booleanWidth_cases h
    exact ⟨hnew, hboundary, hafter⟩
  · rintro ⟨rfl, hboundary, hafter⟩
    unfold Cleanup.booleanWidth
    rw [if_pos hboundary, hafter]

theorem ascii_of_width {m : Text} (h : Text.upper m = "BOOLEAN(11)".toList) : ∀ c ∈ m, c.toNat < 128 := by
  intro c hc
  refine matched_width.ascii_of_upperChar fun d hd => ?_
  rw [← h]
  exact List.mem_flatMap.2 ⟨c, hc, hd⟩

theorem alike_width {m : Text} (h : Text.upper m = "BOOLEAN(11)".toList) : Alike m "INTEGER(11)".toList := by
  have hupper : ∀ {s : Text}, (∀ c ∈ s, c.toNat < 128) → (Text.upper s).map Text.mask = s.map Text.mask := by
    intro s hs
    induction s with
    | nil => rfl
    | cons c s ih =>
      obtain ⟨hc, hs⟩ := List.forall_mem_cons.1 hs
      have hmask := Text.of_ascii (p := fun c => (Text.upperChar c).map Text.mask = [Text.mask c]) (by decide) hc
      rw [Text.upper_cons, List.map_append, hmask, ih hs]
      rfl
  unfold Alike
  rw [← hupper (ascii_of_width h), h]
  decide

/-- What the rule finds is a word and its width in parentheses. -/
theorem split_width {m : Text} (h : Text.upper m = "BOOLEAN(11)".toList) :
    ∃ w, m = w ++ "(11)".toList ∧ Alike w "INTEGER".toList := by
  have hlike := alike_width h
  have hdrop : Alike "(11)".toList (m.drop 7) := by
    unfold Alike at hlike ⊢
    rw [List.map_drop, hlike]
    decide
  obtain ⟨t₁, h₁, hrest₁⟩ := hdrop.of_cons_eq (q := '(') (by decide)
  obtain ⟨t₂, rfl, hrest₂⟩ := hrest₁.of_cons_eq (q := '1') (by decide)
  obtain ⟨t₃, rfl, hrest₃⟩ := hrest₂.of_cons_eq (q := '1') (by decide)
  obtain ⟨t₄, rfl, hrest₄⟩ := hrest₃.of_cons_eq (q := ')') (by decide)
  rw [hrest₄.nil_left] at h₁
  refine ⟨m.take 7, (List.take_append_drop 7 m).symm.trans (by rw [h₁]; rfl), ?_⟩
  unfold Alike at hlike ⊢
  rw [List.map_take, hlike]
  decide

/-- The rule at a place: it copies the character, or it finds BOOLEAN with its width. -/
theorem apply_booleanWidth_cases (b : Option Char) (c : Char) (s : Text) :
    Cleanup.booleanWidth b (c :: s) = none ∧
      Cleanup.booleanWidth.apply false b (c :: s) = c :: Cleanup.booleanWidth.apply false (some c) s ∨
    ∃ m rest, c :: s = m ++ rest ∧ Text.upper m = "BOOLEAN(11)".toList ∧ Text.atBoundary b (c :: s) = true ∧
      Cleanup.booleanWidth.apply false b (c :: s) =
        "INTEGER(11)".toList ++ Cleanup.booleanWidth.apply false (some ')') rest := by
  cases hrule : Cleanup.booleanWidth b (c :: s) with
  | none => exact .inl ⟨rfl, apply_copied (.inl rfl) hrule⟩
  | some p =>
    obtain ⟨new, rest⟩ := p
    obtain ⟨rfl, hboundary, m, hs, hm⟩ := booleanWidth_eq_some_iff.1 hrule
    refine .inr ⟨m, rest, hs, hm, hboundary, ?_⟩
    rw [apply_replaced hrule (rest_lt_of_booleanWidth hrule), hs]
    obtain ⟨w, rfl, -⟩ := split_width hm
    have hlast : lastBefore (w ++ "(11)".toList ++ rest) rest = some ')' := by
      unfold lastBefore
      rw [List.length_append, Nat.add_sub_cancel, List.take_left, List.getLast?_append]
      rfl
    rw [hlast]

theorem replaces_booleanWidth (b : Option Char) (s : Text) :
    Replaces s (Cleanup.booleanWidth.apply false b s) := by
  -- On the length, as the rule passes over all that it finds in one step.
  induction hn : s.length using Nat.strongRecOn generalizing b s with
  | _ n ih =>
    cases s with
    | nil =>
      rw [apply]
      exact ⟨rfl, fun _ => .inr⟩
    | cons c s =>
      rcases apply_booleanWidth_cases b c s with ⟨-, happly⟩ | ⟨m, rest, hs, hm, -, happly⟩ <;> rw [happly]
      · have hrest := ih s.length (by simp [← hn]) (some c) s rfl
        exact ⟨congrArg (Text.mask c :: ·) hrest.alike, fun _ => .inr⟩
      · have hlt : rest.length < n := by
          have hlen := (alike_width hm).length_eq
          rw [← hn, hs, List.length_append, hlen]
          exact Nat.lt_add_of_pos_left (by decide)
        refine ⟨?_, fun d hd => .inl (Option.some.inj hd).symm⟩
        rw [hs]
        exact (alike_width hm).append (ih rest.length hlt _ rest rfl).alike

/-- A word becomes a word of the same length, and what is behind it is seen for itself. -/
theorem apply_word {v r : Text} (hv : ∀ c ∈ v, continuesWord c = true) (hr : Stops continuesWord r)
    (b : Option Char) : ∃ v' b', Cleanup.booleanWidth.apply false b (v ++ r) =
      v' ++ Cleanup.booleanWidth.apply false b' r ∧ Alike v v' ∧ (v' = v ∨ 7 ≤ v'.length) := by
  induction v generalizing b with
  | nil => exact ⟨[], b, rfl, rfl, .inl rfl⟩
  | cons c v ih =>
    rcases apply_booleanWidth_cases b c (v ++ r) with ⟨-, happly⟩ | ⟨m, rest, hs, hm, -, happly⟩
    · obtain ⟨v', b', heq, hlike, hsame⟩ := ih (List.forall_mem_cons.1 hv).2 (some c)
      refine ⟨c :: v', b', ?_, congrArg (Text.mask c :: ·) hlike, hsame.imp (congrArg (c :: ·)) Nat.le_succ_of_le⟩
      rw [List.cons_append, happly, heq]
      rfl
    · -- The word is BOOLEAN from here on, and its width is behind it.
      obtain ⟨w, rfl, hlike⟩ := split_width hm
      have hw : ∀ c ∈ w, continuesWord c = true := Alike.forall_mem Replaces.continuesWord_mask hlike.symm (by decide)
      have hopen : Stops continuesWord ("(11)".toList ++ rest) := stops_cons.2 (by decide)
      rw [List.append_assoc, ← List.cons_append] at hs
      have htake := congrArg (List.takeWhile continuesWord) hs
      have hdrop := congrArg (List.dropWhile continuesWord) hs
      rw [hr.takeWhile_append hv, hopen.takeWhile_append hw] at htake
      rw [hr.dropWhile_append hv, hopen.dropWhile_append hw] at hdrop
      have hmarks : ∀ c ∈ "(11".toList, Text.sameLetter 'B' c = false := by decide
      have hbehind := apply_open hmarks (o := ')') (by decide) none rest
      refine ⟨"INTEGER".toList, none, ?_, htake ▸ hlike, .inr (by decide)⟩
      rw [List.cons_append, happly, hdrop]
      change _ = "INTEGER".toList ++ Cleanup.booleanWidth.apply false none ("(11".toList ++ ')' :: rest)
      rw [hbehind]
      rfl

end Rule

/-! ## The tokens of a text -/

theorem QuotedBody.widened {q : Char} {n : Text} (hq : Text.isAsciiLetter q = false) (b : Option Char) :
    ∃ n', Cleanup.booleanWidth.apply false b (Text.double q n) ++ [q] = Text.double q n' ++ [q] :=
  ((Rule.replaces_booleanWidth b _).alike.append rfl |>.quotedBody hq (quotedBody_double q n)).eq_double

/-- What the rule makes of a token is a token of the same kind. Quoted text is respelled
by itself. -/
theorem ReadsToken.widened {k : TokenKind} {v r : Text} (h : ReadsToken k v r) (b : Option Char) :
    ∃ v' b', Cleanup.booleanWidth.apply false b (v ++ r) = v' ++ Cleanup.booleanWidth.apply false b' r ∧
      (∀ r', Replaces r r' → ReadsToken k v' r') ∧ (k = .string ∨ k = .ident → v' = TableDialects.widened v) := by
  have hcopy : (k ≠ .string ∧ k ≠ .ident) → (∀ c ∈ v, Text.sameLetter 'B' c = false) →
      ∃ v' b', Cleanup.booleanWidth.apply false b (v ++ r) = v' ++ Cleanup.booleanWidth.apply false b' r ∧
        (∀ r', Replaces r r' → ReadsToken k v' r') ∧ (k = .string ∨ k = .ident → v' = TableDialects.widened v) := by
    intro hk hv
    obtain ⟨b', hb⟩ := (Rule.silent_of_forall (fun c hc => Rule.booleanWidth_start (hv c hc)) b).apply_eq
    exact ⟨v, b', hb, fun r' hr => (hr.tokenRule h.rule).reads, fun hquoted => (hquoted.elim hk.1 hk.2).elim⟩
  cases h.rule with
  | @string lead n hlead hr =>
    have hstart := IsLiteral.lead_start hlead
    refine ⟨_, _, apply_quoted hstart (by decide) Rule.isBarrier_quote b r, fun r' hr' => ?_, fun _ => rfl⟩
    obtain ⟨n', hn'⟩ := QuotedBody.widened (q := '\'') (n := n) (by decide) (some '\'')
    rw [widened_quoted hstart (by decide) Rule.isBarrier_quote, hn']
    exact (TokenRule.string hlead (hr'.alike.runsOn (by decide) hr)).reads
  | @ident o q n ho hr =>
    have hq : Text.sameLetter 'B' o = false ∧ Rule.IsBarrier q ∧ Text.isAsciiLetter q = false := by
      rcases ho with ⟨rfl, rfl⟩ | ⟨rfl, rfl⟩ | ⟨rfl, rfl⟩ <;> decide
    have hnil : ∀ c ∈ ([] : Text), Text.sameLetter 'B' c = false := List.forall_mem_nil _
    refine ⟨_, _, apply_quoted hnil hq.1 hq.2.1 b r, fun r' hr' => ?_, fun _ => rfl⟩
    obtain ⟨n', hn'⟩ := QuotedBody.widened (n := n) hq.2.2 (some o)
    rw [widened_quoted hnil hq.1 hq.2.1, hn']
    exact (TokenRule.ident ho (hr'.alike.runsOn hq.2.2 hr)).reads
  | number hn =>
    refine hcopy (by decide) fun c hc => ?_
    rcases ReadsNumber.chars hn c hc with hd | hd
    · exact Text.sameLetter_of_isDigit (by decide) hd
    · clear hc
      revert c
      decide
  | @word c w hc hw hr hn =>
    have hall : ∀ d ∈ c :: w, continuesWord d = true :=
      List.forall_mem_cons.2 ⟨continuesWord_of_startsWord hc, hw⟩
    obtain ⟨v', b', heq, hlike, hsame⟩ := Rule.apply_word hall hr b
    refine ⟨v', b', heq, fun r' hr' => ?_, fun hk => ?_⟩
    · obtain ⟨d, w', rfl, hmask, hrest⟩ := hlike.of_cons
      refine (TokenRule.word ?_ (hrest.forall_mem Replaces.continuesWord_mask hw)
        (hr'.alike.stops Replaces.continuesWord_mask hr) fun hN => ?_).reads
      · have hstart := Text.apply_mask (f := startsWord) (by decide)
        rw [← hstart d, ← hmask, hstart, hc]
      · -- A word that was changed is longer than the prefix of a string.
        rcases hsame with hsame | hlen
        · rw [hsame] at hN
          exact hr'.alike.runsOn (by decide) (hn hN)
        · rcases hN with hN | hN <;> rw [hN] at hlen <;> exact absurd hlen (by decide)
    · rcases hk with hk | hk <;> cases hk
  | @punct c hc hr =>
    refine hcopy (by decide) (List.forall_mem_singleton.2 ?_)
    simp only [isMark, Bool.or_eq_true, beq_iff_eq] at hc
    rcases hc with (((rfl | rfl) | rfl) | rfl) | rfl <;> decide
  | pair hpair =>
    refine hcopy (by decide) ?_
    simp only [isPair, Bool.or_eq_true, Bool.and_eq_true, beq_iff_eq] at hpair
    rcases hpair with ((((⟨rfl, rfl⟩ | ⟨rfl, rfl⟩) | ⟨rfl, rfl⟩) | ⟨rfl, rfl⟩) | ⟨rfl, rfl⟩) | ⟨rfl, rfl⟩ <;> decide
  | @op c hblank hdigit hword hmark hpair hquote hcomment =>
    refine hcopy (by decide) (List.forall_mem_singleton.2 ?_)
    cases hsame : Text.sameLetter 'B' c with
    | false => rfl
    | true =>
      rw [Rule.matched_width.sameLetter (by decide), beq_iff_eq] at hsame
      have hascii := Rule.matched_width.ascii_of_upperChar (c := c) (by rw [hsame]; decide)
      have hstart := Text.of_ascii (p := fun c => Text.upperChar c = ['B'] → startsWord c = true) (by decide) hascii hsame
      rw [hword] at hstart
      cases hstart

namespace Atom

/-- The value of a string or a quoted identifier. -/
def quotedValue? : Atom → Option Text
  | token .string v => some v
  | token .ident v => some v
  | _ => none

theorem filterMap_quotedValue? (as : List Atom) : as.filterMap quotedValue? =
    ((as.filterMap word?).filter fun w => w.1 == .string || w.1 == .ident).map Prod.snd := by
  induction as with
  | nil => rfl
  | cons a as ih =>
    cases a with
    | token k v => cases k <;> simp [word?, List.filterMap_cons, quotedValue?, ih]
    | _ => exact ih

theorem Reads.quotedValues {as : List Atom} (h : Reads [] as) :
    Cleanup.quotedValues (textOf as) = as.filterMap quotedValue? := by
  have hwords := h.wordsOf
  rw [List.append_nil, wordsOf_nil, List.append_nil] at hwords
  rw [Cleanup.quotedValues_eq, hwords, filterMap_quotedValue?]

/-- What the rule makes of atoms without comments are atoms with the same quoted text, each
respelled by itself. -/
theorem exists_widened {as : List Atom} (hreads : Reads [] as) (hfree : ∀ a ∈ as, a.isComment = false)
    (b : Option Char) : ∃ as', textOf as' = Cleanup.booleanWidth.apply false b (textOf as) ∧ Reads [] as' ∧
      as'.filterMap quotedValue? = (as.filterMap quotedValue?).map widened := by
  induction as generalizing b with
  | nil => exact ⟨[], by rw [textOf_nil, Rule.apply], trivial, rfl⟩
  | cons a as ih =>
    obtain ⟨ha, hrest⟩ := reads_cons.1 hreads
    obtain ⟨hnot, hfreeRest⟩ := List.forall_mem_cons.1 hfree
    cases a with
    | line body => cases hnot
    | block body => cases hnot
    | blank c =>
      obtain ⟨as', htext, hreads', hvalues⟩ := ih hrest hfreeRest (some c)
      have hstart : Text.sameLetter 'B' c = false := Text.sameLetter_of_isBlank (by decide) ha
      refine ⟨.blank c :: as', ?_, reads_cons.2 ⟨ha, hreads'⟩, hvalues⟩
      rw [textOf_cons, textOf_cons, htext]
      exact (Rule.apply_copied (.inl rfl) (Rule.booleanWidth_start hstart b _)).symm
    | token k v =>
      obtain ⟨v', b', heq, hread, hquoted⟩ := ReadsToken.widened ha b
      obtain ⟨as', htext, hreads', hvalues⟩ := ih hrest hfreeRest b'
      have hreplaces : Replaces (textOf as) (textOf as') := htext ▸ Rule.replaces_booleanWidth b' _
      refine ⟨.token k v' :: as', ?_, reads_cons.2 ⟨hread _ hreplaces, hreads'⟩, ?_⟩
      · rw [textOf_cons, textOf_cons, htext]
        exact heq.symm
      · cases k with
        | string => simp [quotedValue?, hvalues, hquoted (.inl rfl)]
        | ident => simp [quotedValue?, hvalues, hquoted (.inr rfl)]
        | _ => exact hvalues

end Atom

/-! ## Quoted text that is kept -/

/-- BOOLEAN with a width of 11, letter case apart, stands in the text where a word
starts. -/
def NamesWidth (v : Text) : Prop :=
  ∃ u w x, v = u ++ (w ++ x) ∧ Text.upper w = "BOOLEAN(11)".toList ∧ u.getLast?.any Text.isWordChar = false

theorem head_of_width {m : Text} (h : Text.upper m = "BOOLEAN(11)".toList) :
    ∃ c m', m = c :: m' ∧ Text.isWordChar c = true ∧ c ≠ 'I' := by
  obtain ⟨c, m', rfl, hmask, -⟩ := Alike.of_cons (Rule.alike_width h).symm
  refine ⟨c, m', rfl, ?_, ?_⟩
  · have hword := Text.apply_mask (f := Text.isWordChar) (by decide)
    rw [← hword c, ← hmask]
    decide
  · rintro rfl
    cases (List.cons.inj h).1

/-- The rule keeps a text exactly if BOOLEAN with its width stands in it only behind
word characters: where it is found, its first letter changes. -/
theorem apply_booleanWidth_eq_self_iff (b : Option Char) (s : Text) :
    Cleanup.booleanWidth.apply false b s = s ↔ ∀ u w x, s = u ++ (w ++ x) →
      Text.upper w = "BOOLEAN(11)".toList → (u.getLast?.or b).any Text.isWordChar = true := by
  have hboundary : ∀ {b : Option Char} {w x : Text}, Text.upper w = "BOOLEAN(11)".toList →
      Text.atBoundary b (w ++ x) = !b.any Text.isWordChar := by
    intro b w x hw
    obtain ⟨c, w', rfl, hc, -⟩ := head_of_width hw
    change (b.any Text.isWordChar != Text.isWordChar c) = _
    rw [hc, Bool.bne_true]
  induction s generalizing b with
  | nil =>
    refine iff_of_true (by rw [Rule.apply]) fun u w x hs hw => ?_
    obtain ⟨-, hnil⟩ := List.append_eq_nil_iff.1 hs.symm
    rw [(List.append_eq_nil_iff.1 hnil).1] at hw
    cases hw
  | cons c s ih =>
    rcases Rule.apply_booleanWidth_cases b c s with ⟨hrule, happly⟩ | ⟨m, rest, hs, hm, hstart, happly⟩
    · have hlast : ∀ u : Text, (c :: u).getLast?.or b = u.getLast?.or (some c) := by
        intro u
        rw [List.getLast?_cons]
        cases u.getLast? <;> rfl
      rw [happly, List.cons.injEq, and_iff_right rfl]
      refine (ih (some c)).trans ?_
      constructor
      · intro h u w x hs hw
        cases u with
        | nil =>
          cases hword : (([] : Text).getLast?.or b).any Text.isWordChar with
          | true => rfl
          | false =>
            have hstart : Text.atBoundary b (c :: s) = true := by
              rw [hs, List.nil_append, hboundary hw]
              exact congrArg not hword
            have hfound := Rule.booleanWidth_eq_some_iff.2 ⟨rfl, hstart, w, hs, hw⟩
            rw [hrule] at hfound
            cases hfound
        | cons d u =>
          obtain ⟨rfl, htail⟩ := List.cons.inj hs
          rw [hlast]
          exact h u w x htail hw
      · intro h u w x hs hw
        rw [← hlast]
        exact h (c :: u) w x (congrArg (c :: ·) hs) hw
    · refine iff_of_false (fun h => ?_) fun h => ?_
      · obtain ⟨d, m', rfl, -, hne⟩ := head_of_width hm
        rw [happly, hs] at h
        exact hne (List.cons.inj h).1.symm
      · -- It is found where a word starts, so no word character is before it.
        have hword := h [] m rest hs hm
        rw [hs, hboundary hm] at hstart
        rw [show ([] : Text).getLast?.or b = b from rfl] at hword
        rw [hword] at hstart
        cases hstart

theorem widened_eq_self_iff {v : Text} : widened v = v ↔ ¬ NamesWidth v := by
  rw [widened, apply_booleanWidth_eq_self_iff]
  constructor
  · rintro h ⟨u, w, x, hv, hw, hstart⟩
    have hword := h u w x hv hw
    rw [Option.or_none, hstart] at hword
    cases hword
  · intro h u w x hv hw
    rw [Option.or_none, ← Bool.not_eq_false]
    exact fun hstart => h ⟨u, w, x, hv, hw, hstart⟩

namespace Cleanup

/-- The clean-up of types respells each quoted text by itself. -/
theorem quotedValues_tightTypes {s : Text} (hs : ∀ a ∈ atoms s, a.isComment = false) :
    quotedValues (tightTypes s) = (quotedValues s).map widened := by
  obtain ⟨hreads, htext⟩ := reads_atoms s
  have htight := tightened_apply none s
  rw [← htext] at htight
  obtain ⟨as₁, htext₁, hreads₁, hfree₁, hwords₁⟩ := Atom.exists_tight hreads hs htight
  obtain ⟨as₂, htext₂, hreads₂, hvalues₂⟩ := Atom.exists_widened hreads₁ hfree₁ none
  have hresult : tightTypes s = Atom.textOf as₂ := by
    rw [htext₂, htext₁, htext]
    rfl
  have hquoted := hreads.quotedValues
  rw [htext, Atom.filterMap_quotedValue?, ← hwords₁, ← Atom.filterMap_quotedValue?] at hquoted
  rw [hresult, hreads₂.quotedValues, hvalues₂, hquoted]

/-- The clean-up of types respells BOOLEAN with a width in quoted text too. It keeps the
strings and quoted identifiers of a text without comments exactly if none of them
names it. -/
theorem tightTypes_keeps_quoted_iff (s : Text) (hs : ∀ a ∈ atoms s, a.isComment = false) :
    quotedValues (tightTypes s) = (quotedValues s).map widened ∧
      (quotedValues (tightTypes s) = quotedValues s ↔ ∀ v ∈ quotedValues s, ¬ NamesWidth v) := by
  have hvalues := quotedValues_tightTypes hs
  refine ⟨hvalues, ?_⟩
  have hsame : (quotedValues s).map widened = quotedValues s ↔ ∀ v ∈ quotedValues s, widened v = v := by
    simpa using List.map_inj_left (f := widened) (g := id) (l := quotedValues s)
  rw [hvalues, hsame]
  exact forall₂_congr fun v _ => widened_eq_self_iff

/-- Of two literals the one that names it is changed. -/
theorem tightTypes_keeps_quoted_iff_literal :
    quotedValues (tightTypes "a VARCHAR (9) DEFAULT 'x' COMMENT 'Boolean(11)'".toList) =
      ["'x'".toList, "'INTEGER(11)'".toList] := by
  rw [(tightTypes_keeps_quoted_iff _ (by decide +kernel)).1]
  decide +kernel

end Cleanup

end TableDialects
