import TableDialects.Proofs.Cleanup.LineEnds

/- What the clean-up of lines does to the tokens of a text: nothing, if it finds
   the comments and the lines that the scanner finds (`Cleanup.lines_keeps_quoted`).
   Each of its steps takes white space and comments out of the atoms of the text
   such that no two tokens come to stand together: all block comments
   (`Atom.tidied_withoutBlocks`), white space at the ends (`Atom.exists_strip`) and,
   line by line, the comment of the line, white space before commas and at
   the end, and lines with nothing left (`Atom.exists_lines`).

   The clean-up looks for quotes once in the whole text and then line by line,
   and it takes block comments out before it knows of line comments. It
   goes wrong where these views of the text differ from the scanner's. -/
namespace TableDialects

open Scan

/-! ## Block comments -/

theorem hasPart_iff {part s : Text} : Text.hasPart part s = true ↔ part <:+: s := by
  induction s with
  | nil => simp [Text.hasPart, List.isEmpty_iff]
  | cons c s ih =>
    rw [Text.hasPart, Bool.or_eq_true, ih, List.infix_cons_iff]
    refine or_congr_left ⟨fun h => ?_, ?_⟩
    · obtain ⟨rest, hrest⟩ := Option.isSome_iff_exists.1 h
      exact ⟨rest, (Text.after?_eq_some hrest).symm⟩
    · rintro ⟨rest, hrest⟩
      rw [← hrest, Text.after?_append]
      rfl

theorem blockComment_eq_none {b : Option Char} {c : Char} {s : Text}
    (h : ¬ ['/', '*'] <+: c :: s) : Cleanup.blockComment b (c :: s) = none := by
  cases hsome : Cleanup.blockComment b (c :: s) with
  | none => rfl
  | some p =>
    obtain ⟨body, hs, -⟩ := Rule.blockComment_eq_some hsome
    exact absurd ⟨_, hs.symm⟩ h

theorem idle_blockComment {s : Text} (h : ¬ ['/', '*'] <:+: s) (b : Option Char) :
    Rule.Idle Cleanup.blockComment b s := by
  induction hn : s.length using Nat.strongRecOn generalizing s b with
  | _ n ih =>
    cases s with
    | nil => exact .nil
    | cons c s =>
      cases hq : Text.quoted? (c :: s) with
      | none =>
        refine .copied hq (blockComment_eq_none fun hp => h hp.isInfix)
          (ih s.length ?_ (fun hs => h (List.infix_cons hs)) _ rfl)
        rw [← hn]
        exact Nat.lt_succ_self _
      | some p =>
        obtain ⟨part, rest⟩ := p
        refine .quoted hq (ih rest.length ?_ (fun hs => h ?_) _ rfl)
        · rw [← hn]
          exact Text.quoted?_rest_lt hq
        · rw [← Text.quoted?_append hq]
          exact hs.trans (List.suffix_append _ _).isInfix

theorem applied_plain {v r out : Text} (hv : ∀ c ∈ v, Text.closerOf c = none)
    (hpart : ¬ ['/', '*'] <:+: v) (hr : Stops (· == '*') r)
    (h : Rule.Applied Cleanup.blockComment r out) :
    Rule.Applied Cleanup.blockComment (v ++ r) (v ++ out) := by
  induction v with
  | nil => exact h
  | cons c v ih =>
    refine .copied (Rule.quoted?_eq_none (hv c List.mem_cons_self) _)
      (blockComment_eq_none fun hstart => hpart ?_)
      (ih (fun d hd => hv d (List.mem_cons_of_mem c hd)) fun hin => hpart (List.infix_cons hin))
    obtain ⟨rfl, hstar⟩ := List.cons_prefix_cons.1 hstart
    cases v with
    | nil =>
      obtain ⟨t, rfl⟩ := hstar
      exact absurd (stops_cons.1 hr) (by decide)
    | cons d v =>
      obtain ⟨rfl, -⟩ := List.cons_prefix_cons.1 hstar
      exact ⟨[], v, rfl⟩

namespace Atom

/-- Whether the atom opens no quotes and no block comment if it is a line comment. -/
def isPlain : Atom → Bool
  | line body => body.all (fun c => (Text.closerOf c).isNone) && !Text.hasPart "/*" body
  | _ => true

theorem isPlain_line {body : Text} :
    (line body).isPlain = true ↔
      (∀ c ∈ body, Text.closerOf c = none) ∧ ¬ ['/', '*'] <:+: body := by
  have hpart : ("/*" : String).toList = ['/', '*'] := rfl
  rw [isPlain, Bool.and_eq_true, List.all_eq_true, Bool.not_eq_true', ← Bool.not_eq_true,
    hasPart_iff, hpart]
  simp

theorem isPlain_of_start {b b' : Text} (hb : b' <+: b) (h : (line b).isPlain = true) :
    (line b').isPlain = true := by
  obtain ⟨hclose, hpart⟩ := isPlain_line.1 h
  exact isPlain_line.2 ⟨fun c hc => hclose c (hb.subset hc), fun hin => hpart (hin.trans hb.isInfix)⟩

def withoutBlocks (as : List Atom) : List Atom := as.filter fun a => !a.isBlock

theorem withoutBlocks_eq_self {as : List Atom} (h : ∀ a ∈ as, a.isBlock = false) :
    withoutBlocks as = as :=
  List.filter_eq_self.2 fun a ha => by rw [h a ha]; rfl

theorem head?_withoutBlocks (as : List Atom) :
    (withoutBlocks as).head? = (as.dropWhile isBlock).head? := by
  induction as with
  | nil => rfl
  | cons a as ih =>
    cases ha : a.isBlock with
    | true => simpa [withoutBlocks, ha] using ih
    | false => simp [withoutBlocks, ha]

/-- Whether every block comment stands, with other block comments at most in
between, next to something that parts tokens, at the start (`free`) or at the end. -/
def apart : Bool → List Atom → Bool
  | _, [] => true
  | free, block _ :: as =>
    (free || (as.dropWhile isBlock).head?.all parts) && apart free as
  | _, token k v :: as => apart (token k v).parts as
  | _, blank _ :: as => apart true as
  | _, line _ :: as => apart false as

theorem tidied_withoutBlocks {free : Bool} {as : List Atom} (hreads : Reads [] as)
    (h : apart free as = true) : Tidied free as (withoutBlocks as) := by
  fun_induction apart free as with
  | case1 => exact .nil
  | case2 free b as ih =>
    obtain ⟨hfree, h⟩ := Bool.and_eq_true_iff.1 h
    have hclear : free = true ∨ Clear (withoutBlocks as) := by
      refine (Bool.or_eq_true_iff.1 hfree).imp_right fun hnext a ha => ?_
      rw [head?_withoutBlocks] at ha
      rw [Option.mem_def.1 ha] at hnext
      exact hnext
    exact .drop rfl hclear (ih (reads_cons.1 hreads).2 h)
  | case3 free k v as ih => exact .token (ih (reads_cons.1 hreads).2 h)
  | case4 free c as ih => exact .blank (ih (reads_cons.1 hreads).2 h)
  | case5 free b as ih =>
    obtain ⟨⟨-, hstops⟩, hrest⟩ := reads_cons.1 hreads
    refine .line List.prefix_rfl ?_ (ih hrest h)
    rcases newline_of_stops hrest hstops with rfl | ⟨bs, rfl⟩
    · exact .inl rfl
    · exact .inr ⟨withoutBlocks bs, rfl⟩

/-- The pass over block comments takes the block atoms out, if no line comment
opens quotes or a block comment. -/
theorem applied_withoutBlocks {as : List Atom} (hreads : Reads [] as)
    (hplain : ∀ a ∈ as, a.isPlain = true) :
    Rule.Applied Cleanup.blockComment (textOf as) (textOf (withoutBlocks as)) := by
  induction as with
  | nil => exact .nil
  | cons a as ih =>
    obtain ⟨ha, hrest⟩ := reads_cons.1 hreads
    obtain ⟨hline, hplain⟩ := List.forall_mem_cons.1 hplain
    have happ := ih hrest hplain
    cases a with
    | token k v => exact .token Rule.findsGaps_blockComment ha happ
    | blank c =>
      refine .blank ha (Rule.blockComment_of_ne ?_ none _) happ
      rintro rfl
      have hc : Text.isBlank '/' = true := ha
      exact absurd hc (by decide)
    | block b =>
      have hrule : Cleanup.blockComment none ('/' :: '*' :: (b ++ textOf as)) = some ([], textOf as) := by
        simp [Cleanup.blockComment, blockComment?, (ha : IsCommentBody b).closeComment?]
      exact .replaced (Rule.quoted?_eq_none (by decide) _) hrule happ
    | line b =>
      obtain ⟨hclose, hpart⟩ := isPlain_line.1 hline
      have hstops : Stops (· == '*') (textOf as) := by
        rcases newline_of_stops hrest ha.2 with rfl | ⟨bs, rfl⟩
        · exact stops_nil _
        · exact stops_cons.2 rfl
      have hyphen : ∀ {x y : Text}, Rule.Applied Cleanup.blockComment x y →
          Rule.Applied Cleanup.blockComment ('-' :: x) ('-' :: y) :=
        .copied (Rule.quoted?_eq_none (by decide) _) (Rule.blockComment_of_ne (by decide) none _)
      exact hyphen (hyphen (applied_plain hclose hpart hstops happ))

/-- No block comment starts in the text, or its line comments open none of them
and no quotes. -/
def Safe (as : List Atom) : Prop :=
  ¬ ['/', '*'] <:+: textOf as ∨ ∀ a ∈ as, a.isPlain = true

theorem Safe.within {bs : List Atom} (h : Safe bs) {as : List Atom} (has : as <:+: bs) :
    Safe as := by
  obtain ⟨xs, ys, rfl⟩ := has
  rcases h with hpart | hplain
  · refine .inl fun hin => hpart (hin.trans ?_)
    rw [textOf_append, textOf_append]
    exact List.infix_append _ _ _
  · exact .inr fun a ha => hplain a (by simp [ha])

theorem Tidied.safe {free : Bool} {as as' : List Atom} (h : Tidied free as as') (hsafe : Safe as)
    (htext : ¬ ['/', '*'] <:+: textOf as → textOf as' <:+: textOf as) : Safe as' := by
  rcases hsafe with hpart | hplain
  · exact .inl fun hin => hpart (hin.trans (htext hpart))
  · exact .inr fun a ha =>
      (h.forall_mem (P := fun a => a.isPlain = true) isPlain_of_start hplain a ha).2

theorem isBlock_eq_false {as : List Atom} (h : ¬ ['/', '*'] <:+: textOf as) :
    ∀ a ∈ as, a.isBlock = false := by
  intro a ha
  cases a with
  | block b =>
    obtain ⟨xs, ys, rfl⟩ := List.append_of_mem ha
    refine absurd ⟨textOf xs, b ++ textOf ys, ?_⟩ h
    simp [text]
  | _ => rfl

theorem outsideQuotes_blockComment {as : List Atom} (hreads : Reads [] as) (hsafe : Safe as) :
    Cleanup.outsideQuotes Cleanup.blockComment (textOf as) = textOf (withoutBlocks as) := by
  rcases hsafe with hpart | hplain
  · rw [withoutBlocks_eq_self (isBlock_eq_false hpart)]
    exact (idle_blockComment hpart none).apply_eq
  · exact (applied_withoutBlocks hreads hplain).outsideQuotes_eq Rule.isCut_blockComment

end Atom

/-! ## White space at the ends -/

theorem trimEnd_append (p : Char → Bool) (s t : Text) :
    Text.trimEnd p (s ++ t) =
      if Text.trimEnd p t = [] then Text.trimEnd p s else s ++ Text.trimEnd p t := by
  simp only [Text.trimEnd, List.reverse_append, List.dropWhile_append, List.reverse_eq_nil_iff,
    List.isEmpty_iff]
  split <;> simp

namespace Atom

/-- White space at the end of a text can be taken out of its atoms. -/
theorem exists_trimEnd {as : List Atom} (hreads : Reads [] as)
    (hblock : ∀ a ∈ as, a.isBlock = false) :
    ∃ as', textOf as' = Text.trimEnd Text.isBlank (textOf as) ∧ Tidied false as as' := by
  induction as with
  | nil => exact ⟨[], rfl, .nil⟩
  | cons a as ih =>
    obtain ⟨ha, hrest⟩ := reads_cons.1 hreads
    obtain ⟨hnot, hblock⟩ := List.forall_mem_cons.1 hblock
    obtain ⟨as', htext, htidy⟩ := ih hrest hblock
    have hreads' := htidy.reads hrest
    rw [textOf_cons, trimEnd_append, ← htext]
    by_cases hnil : textOf as' = []
    · obtain rfl := textOf_eq_nil hreads' hnil
      rw [if_pos hnil]
      cases a with
      | token k v =>
        refine ⟨[.token k v], ?_, .token htidy.mono⟩
        exact (List.append_nil v).trans (stripEnd_of_endsFull (ReadsToken.endsFull ha)).symm
      | blank c =>
        refine ⟨[], ?_, .drop rfl (.inr clear_nil) htidy⟩
        have hc : Text.isBlank c = true := ha
        simp [text, Text.trimEnd, hc]
      | line b =>
        refine ⟨[.line (Text.trimEnd Text.isBlank b)], ?_, .line (isPrefix_trimEnd _ b) (.inl rfl) htidy⟩
        have hhyphens : Text.trimEnd Text.isBlank ['-', '-'] = ['-', '-'] := by decide
        show '-' :: '-' :: Text.trimEnd Text.isBlank b ++ [] = Text.trimEnd Text.isBlank (['-', '-'] ++ b)
        rw [trimEnd_append, hhyphens, List.append_nil]
        split
        · rename_i hb
          rw [hb]
        · rfl
      | block b => cases hnot
    · rw [if_neg hnil]
      refine ⟨a :: as', rfl, ?_⟩
      cases a with
      | token k v => exact .token htidy.mono
      | blank c => exact .blank htidy.mono
      | line b =>
        refine .line List.prefix_rfl (newline_of_stops hreads' ?_) htidy
        -- What is left begins as before.
        have hpre := isPrefix_trimEnd Text.isBlank (textOf as)
        rw [← htext] at hpre
        obtain ⟨x, hx⟩ := hpre
        intro c hc
        refine ha.2 c ?_
        rw [← hx]
        cases hstart : textOf as' with
        | nil => exact absurd hstart hnil
        | cons d t =>
          rw [hstart] at hc
          exact hc
      | block b => cases hnot

/-- White space at both ends of a text can be taken out of its atoms. -/
theorem exists_strip {as : List Atom} (hreads : Reads [] as)
    (hblock : ∀ a ∈ as, a.isBlock = false) :
    ∃ as', textOf as' = Text.strip (textOf as) ∧ Tidied true as as' := by
  induction as with
  | nil => exact ⟨[], rfl, .nil⟩
  | cons a as ih =>
    obtain ⟨ha, hrest⟩ := reads_cons.1 hreads
    -- Any other atom than white space ends the stripping of the front.
    have hstart : ∀ {c : Char} {t : Text}, a.text = c :: t → Text.isBlank c = false →
        ∃ as', textOf as' = Text.strip (textOf (a :: as)) ∧ Tidied true (a :: as) as' := by
      intro c t hc hblank
      obtain ⟨as', htext, htidy⟩ := exists_trimEnd hreads hblock
      refine ⟨as', ?_, htidy.mono⟩
      have hstops : Stops Text.isBlank (textOf (a :: as)) := by
        rw [textOf_cons, hc]
        exact stops_cons.2 hblank
      rw [htext, Text.strip, Text.trim, Text.trimStart, hstops.dropWhile_eq]
    cases a with
    | blank c =>
      obtain ⟨as', htext, htidy⟩ := ih hrest (List.forall_mem_cons.1 hblock).2
      refine ⟨as', ?_, .drop rfl (.inl rfl) htidy⟩
      rw [htext, textOf_cons, Text.strip, Text.strip, Text.trim, Text.trim, Text.trimStart,
        Text.trimStart]
      show _ = Text.trimEnd Text.isBlank ((c :: textOf as).dropWhile Text.isBlank)
      rw [List.dropWhile_cons_of_pos ha]
    | line b => exact hstart rfl (by decide)
    | block b => exact hstart rfl (by decide)
    | token k v =>
      have hblank := ReadsToken.stops_blank ha (textOf as)
      obtain ⟨c, w, rfl, -⟩ := (ha : ReadsToken k v _)
      exact hstart rfl (stops_cons.1 hblank)

/-! ## A single line -/

/-- The pass over line comments takes the line comment of a line out. -/
theorem exists_withoutLine {as : List Atom} (hreads : Reads [] as)
    (hblock : ∀ a ∈ as, a.isBlock = false) (hone : ∀ c ∈ textOf as, c ≠ '\n') :
    ∃ as', Rule.Applied Cleanup.lineComment (textOf as) (textOf as') ∧ Tidied false as as' ∧
      ∀ b, .line b ∉ as' := by
  induction as with
  | nil => exact ⟨[], .nil, .nil, by simp⟩
  | cons a as ih =>
    obtain ⟨ha, hrest⟩ := reads_cons.1 hreads
    obtain ⟨hnot, hblock⟩ := List.forall_mem_cons.1 hblock
    obtain ⟨as', happ, htidy, hline⟩ := ih hrest hblock fun c hc =>
      hone c (List.mem_append_right a.text hc)
    cases a with
    | token k v =>
      exact ⟨.token k v :: as', .token Rule.findsGaps_lineComment ha happ, .token htidy.mono,
        by simpa using hline⟩
    | blank c =>
      exact ⟨.blank c :: as', .blank ha (Rule.lineComment_of_isBlank ha _) happ, .blank htidy.mono,
        by simpa using hline⟩
    | line b =>
      -- In a single line nothing can stand behind the comment.
      have hrule : Cleanup.lineComment none ('-' :: '-' :: (b ++ textOf as)) = some ([], []) :=
        Rule.lineComment_of_oneLine (fun c hc =>
          hone c (List.mem_cons_of_mem _ (List.mem_cons_of_mem _ hc))) none
      refine ⟨[], .replaced (Rule.quoted?_eq_none (by decide) _) hrule .nil, ?_, by simp⟩
      rcases newline_of_stops hrest ha.2 with rfl | ⟨bs, rfl⟩
      · exact .drop rfl (.inr clear_nil) .nil
      · exact absurd rfl (hone '\n' (List.mem_append_right _ List.mem_cons_self))
    | block b => cases hnot

theorem clear_of_comma {as : List Atom} (hreads : Reads [] as) {t : Text}
    (h : textOf as = ',' :: t) : Clear as := by
  cases as with
  | nil => exact clear_nil
  | cons a as =>
    intro a' ha'
    cases ha'
    obtain ⟨ha, -⟩ := reads_cons.1 hreads
    cases a with
    | blank c => rfl
    | line b => cases h
    | block b => cases h
    | token k v =>
      obtain ⟨c, w, rfl, hp⟩ := (ha : ReadsToken k v _)
      cases h
      obtain ⟨d, x, hd, hq⟩ := readsToken_mark (.inr (.inr (.inl rfl))) (w ++ textOf as)
      cases hd
      rw [List.nil_append] at hq
      rw [hq] at hp
      cases hp
      rfl

/-- White space that is followed by more of it and a comma makes no difference. -/
theorem applied_commaAhead {c : Char} {s out : Text} (hc : Text.isBlank c = true)
    (hs : Rule.CommaAhead s) (h : Rule.Applied Cleanup.spaceBeforeComma s out) :
    Rule.Applied Cleanup.spaceBeforeComma (c :: s) out ∧ ∃ t, out = ',' :: t := by
  obtain ⟨g, r, rfl, hg⟩ := hs
  obtain ⟨t, hrest⟩ : ∃ t, Rule.Applied Cleanup.spaceBeforeComma r t :=
    ⟨_, Rule.isCut_spaceBeforeComma.applied none r⟩
  have hblanks : ∀ {d : Char} {x : Text}, Text.isBlank d = true → (∀ e ∈ x, Text.isBlank e = true) →
      Rule.Applied Cleanup.spaceBeforeComma (d :: (x ++ ',' :: r)) (',' :: t) := fun hd hx =>
    .replaced (Rule.quoted?_eq_none (Rule.closerOf_of_isBlank hd) _)
      (Rule.spaceBeforeComma_of_blanks hd hx none r) hrest
  have hcomma : Rule.Applied Cleanup.spaceBeforeComma (g ++ ',' :: r) (',' :: t) := by
    cases g with
    | nil =>
      exact .copied (Rule.quoted?_eq_none (by decide) r)
        (Rule.spaceBeforeComma_eq_none_iff.2 fun h => absurd h.1 (by decide)) hrest
    | cons d g =>
      obtain ⟨hd, hg⟩ := List.forall_mem_cons.1 hg
      exact hblanks hd hg
  -- The pass has one result only, so `out` is this one.
  obtain rfl := (h.outsideQuotes_eq Rule.isCut_spaceBeforeComma).symm.trans
    (hcomma.outsideQuotes_eq Rule.isCut_spaceBeforeComma)
  exact ⟨hblanks hc hg, t, rfl⟩

/-- The pass over commas takes the white space before them out. -/
theorem exists_withoutSpace {as : List Atom} (hreads : Reads [] as)
    (hblock : ∀ a ∈ as, a.isBlock = false) (hline : ∀ b, .line b ∉ as) :
    ∃ as', Rule.Applied Cleanup.spaceBeforeComma (textOf as) (textOf as') ∧ Tidied false as as' := by
  induction as with
  | nil => exact ⟨[], .nil, .nil⟩
  | cons a as ih =>
    obtain ⟨ha, hrest⟩ := reads_cons.1 hreads
    obtain ⟨hnot, hblock⟩ := List.forall_mem_cons.1 hblock
    obtain ⟨as', happ, htidy⟩ := ih hrest hblock fun b hb => hline b (List.mem_cons_of_mem a hb)
    cases a with
    | token k v =>
      exact ⟨.token k v :: as', .token Rule.findsGaps_spaceBeforeComma ha happ, .token htidy.mono⟩
    | blank c =>
      by_cases hcomma : Rule.CommaAhead (textOf as)
      · obtain ⟨happ', t, ht⟩ := applied_commaAhead ha hcomma happ
        exact ⟨as', happ', .drop rfl (.inr (clear_of_comma (htidy.reads hrest) ht)) htidy⟩
      · refine ⟨.blank c :: as', .blank ha ?_ happ, .blank htidy.mono⟩
        exact Rule.spaceBeforeComma_eq_none_iff.2 fun h => hcomma h.2
    | line b => exact absurd List.mem_cons_self (hline b)
    | block b => cases hnot

/-- Atoms that every pass over lines sees as the scanner does: no block comment is
left, none is opened by a line comment, and tokens stand in one line. -/
structure Lined (as : List Atom) : Prop where
  reads : Reads [] as
  safe : Safe as
  isBlock : ∀ a ∈ as, a.isBlock = false
  token : ∀ k v, .token k v ∈ as → ∀ c ∈ v, c ≠ '\n'

theorem Lined.within {bs : List Atom} (h : Lined bs) {as : List Atom} (has : as <:+: bs) :
    Lined as where
  reads := by
    obtain ⟨xs, ys, rfl⟩ := has
    have hall := h.reads
    rw [reads_append, reads_append] at hall
    exact hall.1.2.alone
  safe := h.safe.within has
  isBlock a ha := h.isBlock a (has.subset ha)
  token k v hv := h.token k v (has.subset hv)

theorem Lined.oneLine {as : List Atom} (h : Lined as) (hblank : .blank '\n' ∉ as) :
    ∀ c ∈ textOf as, c ≠ '\n' := by
  intro c hc
  obtain ⟨a, ha, hc⟩ := List.mem_flatMap.1 hc
  cases a with
  | blank d =>
    obtain rfl := List.mem_singleton.1 hc
    rintro rfl
    exact hblank ha
  | token k v => exact h.token k v ha c hc
  | line b =>
    obtain ⟨r, hbody, -⟩ := h.reads.mem ha
    rcases List.mem_cons.1 hc with rfl | hc
    · decide
    rcases List.mem_cons.1 hc with rfl | hc
    · decide
    simpa using hbody c hc
  | block b => cases h.isBlock _ ha

theorem exists_line {as : List Atom} (h : Lined as) (hblank : .blank '\n' ∉ as) :
    ∃ as', textOf as' = Cleanup.line (textOf as) ∧ Tidied false as as' := by
  obtain ⟨as₁, happ₁, htidy₁, hline⟩ := exists_withoutLine h.reads h.isBlock (h.oneLine hblank)
  have hreads₁ := htidy₁.reads h.reads
  obtain ⟨as₂, happ₂, htidy₂⟩ := exists_withoutSpace hreads₁ htidy₁.isBlock hline
  obtain ⟨as₃, htext, htidy₃⟩ := exists_trimEnd (htidy₂.reads hreads₁) htidy₂.isBlock
  have htrans : ∀ {xs ys zs : List Atom}, Tidied false xs ys → Tidied false ys zs → Tidied false xs zs :=
    fun h h' => h.trans h' fun hf => absurd hf Bool.false_ne_true
  refine ⟨as₃, ?_, htrans htidy₁ (htrans htidy₂ htidy₃)⟩
  rw [Cleanup.line, outsideQuotes_blockComment h.reads h.safe, withoutBlocks_eq_self h.isBlock,
    happ₁.outsideQuotes_eq Rule.isCut_lineComment,
    happ₂.outsideQuotes_eq Rule.isCut_spaceBeforeComma, htext]
  rfl

end Atom

/-! ## All lines -/

namespace Cleanup

def kept (l : Text) : List Text := if line l = [] then [] else [line l]

theorem filter_line (l : Text) :
    ([line l].filter fun m => !(Text.strip m).isEmpty) = kept l := by
  unfold kept
  split
  · rename_i hnil
    rw [hnil]
    rfl
  · rename_i hne
    have hfull := strip_ne_nil_of_endsFull ((line_full l).resolve_left hne)
    simp [hfull]

theorem cleanLines_single {l : Text} (hone : ∀ c ∈ l, c ≠ '\n') : cleanLines l = kept l := by
  rw [cleanLines, splitOn_single hone, List.map_singleton, filter_line]

theorem cleanLines_append {l : Text} (hone : ∀ c ∈ l, c ≠ '\n') (s : Text) :
    cleanLines (l ++ '\n' :: s) = kept l ++ cleanLines s := by
  rw [cleanLines, splitOn_append hone, List.map_cons, ← List.singleton_append, List.filter_append,
    filter_line]
  rfl

end Cleanup

namespace Atom

/-- A tidied line above tidied lines. If nothing is left of it, it goes with its
line end; if nothing is left below, the line end goes as well. -/
theorem Tidied.above {xs xs' ys ys' : List Atom} (hx : Tidied false xs xs') (hy : Tidied true ys ys')
    (hreads : Reads [] ys') {ms : List Text} (htext : textOf ys' = Text.join ['\n'] ms) :
    ∃ as', textOf as' = Text.join ['\n'] ((if xs' = [] then [] else [textOf xs']) ++ ms) ∧
      Tidied true (xs ++ .blank '\n' :: ys) as' := by
  split
  · rename_i hnil
    subst hnil
    exact ⟨ys', htext, hx.skip (.drop rfl (.inl rfl) hy)⟩
  · cases ms with
    | nil =>
      obtain rfl := textOf_eq_nil hreads htext
      have hall : Tidied false (xs ++ .blank '\n' :: ys) (xs' ++ []) :=
        hx.append (.inl rfl) fun f => .drop rfl (.inr clear_nil) hy.of_nil
      rw [List.append_nil] at hall
      exact ⟨xs', rfl, hall.mono⟩
    | cons m ms =>
      refine ⟨xs' ++ .blank '\n' :: ys', ?_,
        (hx.append (.inr ⟨ys', rfl⟩) fun f => .blank hy).mono⟩
      rw [textOf_append, textOf_cons, htext, List.singleton_append, join_cons, join_cons,
        List.flatMap_cons]
      rfl

theorem exists_lines {as : List Atom} (h : Lined as) :
    ∃ as', textOf as' = Text.join ['\n'] (Cleanup.cleanLines (textOf as)) ∧ Tidied true as as' := by
  -- By induction on the number of atoms: the first line is cut off.
  induction hn : as.length using Nat.strongRecOn generalizing as with
  | _ n ih =>
    by_cases hblank : .blank '\n' ∈ as
    · obtain ⟨xs, ys, rfl, hxs⟩ := List.eq_append_cons_of_mem hblank
      have hfirst : Lined xs := h.within (List.prefix_append xs _).isInfix
      have hbelow : Lined ys :=
        h.within ((List.suffix_cons _ ys).trans (List.suffix_append xs _)).isInfix
      obtain ⟨xs', htext, htidy⟩ := exists_line hfirst hxs
      have hlt : ys.length < n := by
        rw [← hn, List.length_append, List.length_cons]
        omega
      obtain ⟨ys', htext', htidy'⟩ := ih ys.length hlt hbelow rfl
      have hempty : textOf xs' = [] ↔ xs' = [] :=
        ⟨textOf_eq_nil (htidy.reads hfirst.reads), fun hnil => by rw [hnil]; rfl⟩
      rw [textOf_append, textOf_cons, text, List.singleton_append,
        Cleanup.cleanLines_append (hfirst.oneLine hxs), Cleanup.kept, ← htext]
      simp only [hempty]
      exact htidy.above htidy' (htidy'.reads hbelow.reads) htext'
    · obtain ⟨as', htext, htidy⟩ := exists_line h hblank
      refine ⟨as', ?_, htidy.mono⟩
      rw [htext, Cleanup.cleanLines_single (h.oneLine hblank), Cleanup.kept]
      split
      · assumption
      · rfl

/-- What the clean-up leaves of legible atoms are tidied atoms. -/
theorem exists_clean {as : List Atom} (hreads : Reads [] as) (hsafe : Safe as)
    (hapart : apart true as = true) (htoken : ∀ k v, .token k v ∈ as → ∀ c ∈ v, c ≠ '\n') :
    ∃ as', textOf as' = Text.join ['\n'] (Cleanup.cleanLines (Text.strip
      (Cleanup.outsideQuotes Cleanup.blockComment (textOf as)))) ∧ Tidied true as as' := by
  have htidy₁ := tidied_withoutBlocks hreads hapart
  have hreads₁ := htidy₁.reads hreads
  have hsafe₁ := htidy₁.safe hsafe fun hpart =>
    (withoutBlocks_eq_self (isBlock_eq_false hpart)).symm ▸ List.infix_rfl
  obtain ⟨as₂, htext₂, htidy₂⟩ := exists_strip hreads₁ htidy₁.isBlock
  have hsafe₂ := htidy₂.safe hsafe₁ fun _ => htext₂ ▸ trim_infix _ _
  obtain ⟨as₃, htext₃, htidy₃⟩ := exists_lines ⟨htidy₂.reads hreads₁, hsafe₂, htidy₂.isBlock,
    htidy₂.token_mem (htidy₁.token_mem htoken)⟩
  refine ⟨as₃, ?_, (htidy₁.trans htidy₂ .inl).trans htidy₃ .inl⟩
  rw [htext₃, htext₂, outsideQuotes_blockComment hreads hsafe]

end Atom

namespace Cleanup

/-- The values of the strings and quoted identifiers of a text. -/
def quotedValues (s : Text) : List Text :=
  ((tokenize s).filter fun t => t.kind == .string || t.kind == .ident).map Token.value

theorem quotedValues_eq (s : Text) :
    quotedValues s = ((wordsOf s).filter fun w => w.1 == .string || w.1 == .ident).map Prod.snd := by
  simp [quotedValues, wordsOf, List.filter_map, Function.comp_def, Token.word]

/-- Cleaning finds the lines and the comments that the scanner finds. No quoted
text runs over a line end, no line comment over a carriage return. Where a block
comment may start, no line comment opens quotes or a block comment. Tokens are not
parted by block comments alone. -/
structure IsTame (s : Text) : Prop where
  oneLine : ∀ a ∈ atoms s, a.isOneLine = true
  plain : Text.hasPart "/*" (Text.unixLines s) = true →
    ∀ a ∈ atoms (Text.unixLines s), a.isPlain = true
  apart : Atom.apart true (atoms (Text.unixLines s)) = true

theorem wordsOf_lines {s : Text} (h : IsTame s) : wordsOf (lines s) = wordsOf s := by
  obtain ⟨hreads₀, htext₀⟩ := reads_atoms s
  obtain ⟨hreads₁, htext₁⟩ := reads_atoms (Text.unixLines s)
  have hwords₁ : (atoms (Text.unixLines s)).filterMap Atom.word? = (atoms s).filterMap Atom.word? := by
    have := Atom.wordsOf_unixLines hreads₀ h.oneLine
    rwa [htext₀, ← filterMap_word?_atoms] at this
  have hsafe₁ : Atom.Safe (atoms (Text.unixLines s)) := by
    by_cases hpart : Text.hasPart "/*" (Text.unixLines s) = true
    · exact .inr (h.plain hpart)
    · rw [hasPart_iff] at hpart
      exact .inl (htext₁.symm ▸ hpart)
  have htoken : ∀ k v, .token k v ∈ atoms (Text.unixLines s) → ∀ c ∈ v, c ≠ '\n' := by
    intro k v hv c hc
    -- The token is also one of the text as it was given.
    have hword : (k, v) ∈ (atoms s).filterMap Atom.word? :=
      hwords₁ ▸ List.mem_filterMap.2 ⟨_, hv, rfl⟩
    obtain ⟨a, ha, hsome⟩ := List.mem_filterMap.1 hword
    obtain rfl := Atom.eq_token_of_word? hsome
    obtain ⟨r, hread⟩ := hreads₁.mem hv
    exact (Atom.oneLine_token hread (h.oneLine _ ha) c hc).1
  obtain ⟨as', htext, htidy⟩ := Atom.exists_clean hreads₁ hsafe₁ h.apart htoken
  rw [htext₁, ← lines_eq] at htext
  have hwords := (htidy.reads hreads₁).wordsOf
  rw [List.append_nil, wordsOf_nil, List.append_nil, htext, htidy.words, hwords₁,
    filterMap_word?_atoms] at hwords
  exact hwords

/-- The clean-up keeps quoted text, and all other tokens, of a tame text. -/
theorem lines_keeps_quoted {s : Text} (h : IsTame s) :
    quotedValues (lines s) = quotedValues s ∧
      (tokenize (lines s)).map Token.word = (tokenize s).map Token.word := by
  have hwords := wordsOf_lines h
  exact ⟨by rw [quotedValues_eq, quotedValues_eq, hwords], hwords⟩

/-- Comment marks and commas inside quoted text, between comments of both kinds
and line ends of both kinds. -/
theorem lines_keeps_quoted_marks :
    IsTame "a /* it's\r\n */ `b -- c` ,-- d\r\n\n  'e''f /* , */' (/**/ g\n)".toList ∧
      quotedValues (lines "a /* it's\r\n */ `b -- c` ,-- d\r\n\n  'e''f /* , */' (/**/ g\n)".toList) =
        ["`b -- c`".toList, "'e''f /* , */'".toList] := by
  have h : IsTame "a /* it's\r\n */ `b -- c` ,-- d\r\n\n  'e''f /* , */' (/**/ g\n)".toList :=
    ⟨by decide +kernel, by decide +kernel, by decide +kernel⟩
  exact ⟨h, (lines_keeps_quoted h).1.trans (by decide +kernel)⟩

/-- A blank line inside a string is lost. -/
example : quotedValues (lines "'a\n\nb'".toList) = ["'a\nb'".toList] := by decide +kernel

end Cleanup
end TableDialects
