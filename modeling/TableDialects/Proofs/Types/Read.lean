import TableDialects.Proofs.Reading.Default
import TableDialects.Proofs.Reading.Groups
import TableDialects.Proofs.Text.LetterCase
import TableDialects.Proofs.Types.Split

/- The type of a column that was read, as it is looked up. The reader leaves the name
   of a type in the form of the look-up (`normal_of_read`): words in lower case with
   single spaces between them. So the look-up changes only the parameters
   (`normalType_name`), and where it splits a type, it does so where the name ends,
   unless the name holds a parenthesis of its own (`split_cases`). -/
namespace TableDialects

open Scan

/-! ## White space in tokens -/

/-- The characters that open quotes. -/
def quoteMarks : Text := ['\'', '`', '"', '[']

theorem Scan.ReadsNumber.isBlank {v r : Text} (h : ReadsNumber v r) : ∀ c ∈ v, Text.isBlank c = false := by
  intro c hc
  rcases ReadsNumber.chars h c hc with hdigit | hmark
  · exact isBlank_of_isDigit hdigit
  · have hmarks : ∀ c ∈ ['.', '+', '-', 'e', 'E'], Text.isBlank c = false := by decide
    exact hmarks c hmark

/-- A token is a string or a quoted name, and holds a quote, or there is no white
space in it. -/
theorem ReadsToken.quoted_or_full {k : TokenKind} {v r : Text} (h : ReadsToken k v r) :
    ((k = .string ∨ k = .ident) ∧ ∃ m ∈ quoteMarks, m ∈ v) ∨ ∀ c ∈ v, Text.isBlank c = false := by
  cases h.rule with
  | string hlead hr => exact .inl ⟨.inl rfl, '\'', by decide, List.mem_append_right _ List.mem_cons_self⟩
  | @ident o q n ho hr =>
    refine .inl ⟨.inr rfl, o, ?_, List.mem_cons_self⟩
    rcases ho with ⟨rfl, -⟩ | ⟨rfl, -⟩ | ⟨rfl, -⟩ <;> decide
  | number hn => exact .inr hn.isBlank
  | word hc hw hr hn => exact .inr (isBlank_of_word hc hw)
  | punct hc hr => exact .inr (List.forall_mem_singleton.2 (isBlank_of_isMark hc))
  | pair hp => exact .inr (isBlank_of_isPair hp)
  | op hblank => exact .inr (List.forall_mem_singleton.2 hblank)

/-! ## Names of types -/

/-- The text is in the form of the look-up: in lower case, without white space around
it, and with single spaces in it. -/
structure IsNormalName (b : Text) : Prop where
  settled : ∀ c ∈ b, Text.Settled c
  starts : ∀ c ∈ b.head?, Text.isBlank c = false
  full : ∀ c ∈ b.getLast?, Text.isBlank c = false
  collapsed : Text.collapse b = b

def IsLowerWord (w : Text) : Prop := w ≠ [] ∧ ∀ c ∈ w, Text.isBlank c = false ∧ Text.Settled c

theorem TypeParts.IsBaseName.isNormalName {b : Text} (h : IsBaseName b) : IsNormalName b where
  settled c hc := lowerChar_of_continuesBase (h.continues c hc)
  starts c hc := by
    have hstart := h.starts c hc
    refine isBlank_of_continuesBase (by rw [continuesBase, hstart]; rfl) ?_
    rintro rfl
    cases hstart
  full := h.full
  collapsed := h.collapsed

/-- A text that starts full is collapsed alike behind white space. -/
theorem collapseFrom_starts {s : Text} (h : ∀ c ∈ s.head?, Text.isBlank c = false) (inRun : Bool) :
    Text.collapseFrom inRun s = Text.collapse s := by
  cases s with
  | nil => rfl
  | cons c s =>
    have hc := h c rfl
    rw [Text.collapse, Text.collapseFrom, Text.collapseFrom, hc]
    rfl

theorem IsLowerWord.isNormalName {w : Text} (h : IsLowerWord w) : IsNormalName w where
  settled c hc := (h.2 c hc).2
  starts c hc := (h.2 c (List.mem_of_mem_head? hc)).1
  full c hc := (h.2 c (List.mem_of_getLast? hc)).1
  collapsed := collapse_eq_self fun c hc => (h.2 c hc).1

theorem IsNormalName.cons_word {w b : Text} (hw : IsLowerWord w) (hb : IsNormalName b) (hne : b ≠ []) :
    IsNormalName (w ++ ' ' :: b) where
  settled := List.forall_mem_append.2 ⟨hw.isNormalName.settled, List.forall_mem_cons.2 ⟨by decide, hb.settled⟩⟩
  starts := by
    obtain ⟨d, v, rfl⟩ := List.exists_cons_of_ne_nil hw.1
    exact hw.isNormalName.starts
  full c hc := by
    obtain ⟨x, d, rfl, hd⟩ := eq_concat_of_ne_nil hne
    rw [← List.cons_append, ← List.append_assoc, List.getLast?_concat] at hc
    exact hb.full c (hd.trans hc)
  collapsed := by
    rw [Text.collapse, collapseFrom_append hw.1 hw.isNormalName.full]
    show Text.collapse w ++ ' ' :: Text.collapseFrom true b = _
    rw [collapseFrom_starts hb.starts, hw.isNormalName.collapsed, hb.collapsed]

/-- Words in lower case with single spaces between them are in the form of the
look-up. -/
theorem isNormalName_join {ws : List Text} (h : ∀ w ∈ ws, IsLowerWord w) : IsNormalName (Text.join [' '] ws) := by
  fun_induction Text.join [' '] ws with
  | case1 => exact ⟨by simp, by simp, by simp, rfl⟩
  | case2 w => exact (h w List.mem_cons_self).isNormalName
  | case3 w ws hws ih =>
    obtain ⟨hw, hrest⟩ := List.forall_mem_cons.1 h
    rw [List.append_assoc]
    refine .cons_word hw (ih hrest) ?_
    rcases ws with _ | ⟨v, _ | ⟨u, ws⟩⟩
    · exact absurd rfl hws
    · exact (hrest v List.mem_cons_self).1
    · simp [Text.join]

theorem mem_wordsFrom {current s w : Text} (hcurrent : ∀ c ∈ current, Text.isBlank c = false)
    (h : w ∈ Text.wordsFrom current s) :
    w ≠ [] ∧ ∀ c ∈ w, Text.isBlank c = false ∧ (c ∈ current ∨ c ∈ s) := by
  have hclosed : ∀ {current : Text}, current.isEmpty = false → (∀ c ∈ current, Text.isBlank c = false) →
      ∀ s : Text, current.reverse ≠ [] ∧ ∀ c ∈ current.reverse, Text.isBlank c = false ∧ (c ∈ current ∨ c ∈ s) := by
    intro current hne hfull s
    refine ⟨by simpa using hne, fun c hc => ?_⟩
    rw [List.mem_reverse] at hc
    exact ⟨hfull c hc, .inl hc⟩
  fun_induction Text.wordsFrom current s with
  | case1 current he => cases h
  | case2 current he =>
    cases List.mem_singleton.1 h
    exact hclosed (by simpa using he) hcurrent []
  | case3 current c s hc he ih =>
    obtain ⟨hne, hchars⟩ := ih (List.forall_mem_nil _) h
    refine ⟨hne, fun d hd => ?_⟩
    obtain ⟨hblank, hin⟩ := hchars d hd
    exact ⟨hblank, .inr (List.mem_cons_of_mem c (hin.resolve_left List.not_mem_nil))⟩
  | case4 current c s hc he ih =>
    rcases List.mem_cons.1 h with rfl | h
    · exact hclosed (by simpa using he) hcurrent (c :: s)
    · obtain ⟨hne, hchars⟩ := ih (List.forall_mem_nil _) h
      refine ⟨hne, fun d hd => ?_⟩
      obtain ⟨hblank, hin⟩ := hchars d hd
      exact ⟨hblank, .inr (List.mem_cons_of_mem c (hin.resolve_left List.not_mem_nil))⟩
  | case5 current c s hc ih =>
    obtain ⟨hne, hchars⟩ := ih (List.forall_mem_cons.2 ⟨by simpa using hc, hcurrent⟩) h
    refine ⟨hne, fun d hd => ?_⟩
    obtain ⟨hblank, hin⟩ := hchars d hd
    refine ⟨hblank, ?_⟩
    rcases hin with hin | hin
    · rcases List.mem_cons.1 hin with rfl | hin
      · exact .inr List.mem_cons_self
      · exact .inl hin
    · exact .inr (List.mem_cons_of_mem c hin)

theorem isLowerWord_words {s w : Text} (h : w ∈ Text.words (Text.lower s)) : IsLowerWord w := by
  obtain ⟨hne, hchars⟩ := mem_wordsFrom (List.forall_mem_nil _) h
  refine ⟨hne, fun c hc => ?_⟩
  obtain ⟨hblank, hin⟩ := hchars c hc
  exact ⟨hblank, Text.mem_lower c (hin.resolve_left List.not_mem_nil)⟩

theorem isLowerWord_lower {s : Text} (hne : s ≠ []) (h : ∀ c ∈ s, Text.isBlank c = false) :
    IsLowerWord (Text.lower s) := by
  refine ⟨?_, fun c hc => ⟨Text.isBlank_lowerAfter h c hc, Text.mem_lower c hc⟩⟩
  cases s with
  | nil => exact absurd rfl hne
  | cons c s =>
    obtain ⟨front, heq, hfront⟩ := Text.lowerAfter_cons [] c s
    rw [Text.lower, heq]
    rcases hfront with ⟨rfl, -⟩ | ⟨hne, -⟩
    · exact List.cons_ne_nil _ _
    · simp [hne]

namespace Column

theorem isLowerWord_takeSequence {candidates : List (List String)} (ts : List Token)
    (h : ∀ words ∈ candidates, ∀ w ∈ words, w ∈ continuations) :
    ∀ w ∈ (takeSequence candidates ts).1, IsLowerWord w := by
  have hword : ∀ w ∈ continuations, w.toList ≠ [] ∧ ∀ c ∈ w.toList, Text.isBlank c = false := by decide
  fun_induction takeSequence candidates ts with
  | case1 ts => exact List.forall_mem_nil _
  | case2 words candidates ts rest hwords =>
    intro w hw
    obtain ⟨v, hv, rfl⟩ := List.mem_map.1 hw
    obtain ⟨hne, hfull⟩ := hword v (h words List.mem_cons_self v hv)
    exact isLowerWord_lower hne hfull
  | case3 words candidates ts hwords ih => exact ih fun ws hws => h ws (List.mem_cons_of_mem words hws)

theorem isLowerWord_takeTypeWords {clause : Text} {t : Token} {ts : List Token} (ht : t ∈ tokenize clause)
    (hstart : startsType t ts = true) : ∀ w ∈ (takeTypeWords t ts).1, IsLowerWord w := by
  unfold takeTypeWords
  split
  · exact fun w hw => isLowerWord_words hw
  · rename_i hident
    obtain ⟨r, hr⟩ := readsToken_of_mem ht
    have hword : t.kind = .word := by
      simp only [startsType, Bool.and_eq_true, Bool.or_eq_true, beq_iff_eq] at hstart hident
      exact hstart.1.resolve_right fun h => hident h.1
    rw [hword] at hr
    refine List.forall_mem_cons.2 ⟨isLowerWord_lower hr.ne_nil ?_, isLowerWord_takeSequence ts
      (typeContinuations_subset _)⟩
    rcases hr.quoted_or_full with ⟨hkind, -⟩ | hfull
    · rcases hkind with hkind | hkind <;> cases hkind
    · exact hfull

theorem takeModifiers_name (c : Column) (ts : List Token) : (takeModifiers c ts).1.baseType = c.baseType ∧
    (takeModifiers c ts).1.typeParams = c.typeParams := by
  fun_induction takeModifiers c ts with
  | case1 => exact ⟨rfl, rfl⟩
  | case2 c t ts ht ih => exact ih
  | case3 c t ts hn ht ih => exact ih
  | case4 => exact ⟨rfl, rfl⟩

theorem foldl_apply_name (os : List ColumnOption) (c : Column) : (os.foldl apply c).baseType = c.baseType ∧
    (os.foldl apply c).typeParams = c.typeParams := by
  induction os generalizing c with
  | nil => exact ⟨rfl, rfl⟩
  | cons o os ih =>
    rw [List.foldl_cons, (ih _).1, (ih _).2]
    cases o <;> exact ⟨rfl, rfl⟩

/-- The parameters are absent, or stand in parentheses as they were read. -/
theorem params_of_takeParams {words : List Text} {ts rest : List Token} {params : Text} {suffix : List Text}
    (h : takeParams words ts = .ok ((params, suffix), rest)) :
    (∀ w ∈ suffix, IsLowerWord w) ∧ (params = [] ∨ ∃ inner, inner ⊆ ts ∧ params = paramsText inner) := by
  unfold takeParams at h
  split at h
  · split at h
    · cases h
    · rename_i inner left hgroup
      obtain ⟨group, ⟨o, c, rfl, -⟩, rfl⟩ := isGroup_of_takeGroup hgroup
      have hsuffix : ∀ w ∈ (if words == ["timestamp".toList] || words == ["time".toList] then
          takeSequence zoneSuffixes left else ([], left)).1, IsLowerWord w := by
        split
        · exact isLowerWord_takeSequence left (by decide)
        · exact List.forall_mem_nil _
      cases h
      exact ⟨hsuffix, .inr ⟨inner, fun t ht => by simp [ht], rfl⟩⟩
  · cases h
    exact ⟨List.forall_mem_nil _, .inl rfl⟩

theorem normal_of_takeType {clause name : Text} {ts rest : List Token} {c : Column}
    (hts : ts ⊆ tokenize clause) (h : takeType name ts = .ok (c, rest)) :
    IsNormalName c.baseType ∧ (c.typeParams = [] ∨ ∃ inner, inner ⊆ ts ∧ c.typeParams = paramsText inner) := by
  have hnone : IsNormalName [] := isNormalName_join (List.forall_mem_nil _)
  unfold takeType at h
  split at h
  · cases h
    exact ⟨hnone, .inl rfl⟩
  · rename_i t more
    split at h
    · rename_i hstart
      dsimp only at h
      split at h
      · cases h
      · rename_i params suffix left hparams
        obtain ⟨hsuffix, hread⟩ := params_of_takeParams hparams
        have hwords := isLowerWord_takeTypeWords (hts List.mem_cons_self) hstart
        obtain ⟨rfl, -⟩ := Prod.mk.inj (Except.ok.inj h)
        rw [(takeModifiers_name _ _).1, (takeModifiers_name _ _).2]
        refine ⟨isNormalName_join (List.forall_mem_append.2 ⟨hwords, hsuffix⟩), hread.imp_right ?_⟩
        rintro ⟨inner, hin, heq⟩
        exact ⟨inner, List.Subset.trans hin (List.Subset.trans (takeTypeWords_suffix t more).subset
          (List.subset_cons_self t more)), heq⟩
    · cases h
      exact ⟨hnone, .inl rfl⟩

/-- The name of a type that was read is in the form of the look-up. -/
theorem normal_of_read {clause : Text} {c : Column} (h : read clause (tokenize clause) = .ok c) :
    IsNormalName c.baseType ∧
      (c.typeParams = [] ∨ ∃ inner, inner ⊆ tokenize clause ∧ c.typeParams = paramsText inner) := by
  generalize hts : tokenize clause = ts at h
  unfold read at h
  split at h
  · cases h
  · rename_i t rest
    split at h
    · split at h
      · cases h
      · rename_i column left htype
        split at h
        · cases h
        · cases h
          rw [(foldl_apply_name _ _).1, (foldl_apply_name _ _).2]
          have hsub : rest ⊆ t :: rest := List.subset_cons_self t rest
          obtain ⟨hname, hparams⟩ := normal_of_takeType (hts ▸ hsub) htype
          refine ⟨hname, hparams.imp_right ?_⟩
          rintro ⟨inner, hin, heq⟩
          exact ⟨inner, List.Subset.trans hin hsub, heq⟩
    · cases h

end Column

/-! ## The form of the look-up -/

/-- Parameters in the form of the look-up: absent, or in parentheses, in lower case and
with no white space but spaces. -/
structure IsNormalParams (q : Text) : Prop where
  closed : q = [] ∨ ∃ m, q = '(' :: (m ++ [')'])
  settled : ∀ c ∈ q, Text.Settled c
  spaces : ∀ c ∈ q, Text.isBlank c = true → c = ' '

/-- Parameters behind a name, as they are looked up. -/
def normalParams (b p : Text) : Text := Text.collapse (Text.lowerAfter b.reverse p)

theorem mem_collapseFrom {inRun : Bool} {s : Text} :
    ∀ c ∈ Text.collapseFrom inRun s, c = ' ' ∨ c ∈ s ∧ Text.isBlank c = false := by
  fun_induction Text.collapseFrom inRun s with
  | case1 => exact List.forall_mem_nil _
  | case2 c s hc ih => exact fun d hd => (ih d hd).imp_right fun h => ⟨List.mem_cons_of_mem c h.1, h.2⟩
  | case3 inRun c s hc hrun ih =>
    refine List.forall_mem_cons.2 ⟨.inl rfl, fun d hd => ?_⟩
    exact (ih d hd).imp_right fun h => ⟨List.mem_cons_of_mem c h.1, h.2⟩
  | case4 inRun c s hc ih =>
    refine List.forall_mem_cons.2 ⟨.inr ⟨List.mem_cons_self, by simpa using hc⟩, fun d hd => ?_⟩
    exact (ih d hd).imp_right fun h => ⟨List.mem_cons_of_mem c h.1, h.2⟩

theorem collapseFrom_concat {c : Char} (hc : Text.isBlank c = false) (inRun : Bool) (s : Text) :
    Text.collapseFrom inRun (s ++ [c]) = Text.collapseFrom inRun s ++ [c] := by
  fun_induction Text.collapseFrom inRun s with
  | case1 => simp [Text.collapseFrom, hc]
  | case2 d s hd ih => simp [Text.collapseFrom, hd, ih]
  | case3 inRun d s hd hrun ih => simp [Text.collapseFrom, hd, hrun, ih]
  | case4 inRun d s hd ih => simp [Text.collapseFrom, hd, ih]

theorem Text.lowerAfter_concat {c : Char} (hc : Settled c) (before s : Text) :
    ∃ l, lowerAfter before (s ++ [c]) = l ++ [c] := by
  induction s generalizing before with
  | nil => exact ⟨[], lowerAfter_of_settled (List.forall_mem_singleton.2 hc) before⟩
  | cons d s ih =>
    obtain ⟨l, hl⟩ := ih (d :: before)
    rw [List.cons_append, lowerAfter, hl, ← List.append_assoc]
    exact ⟨_, rfl⟩

theorem isNormalParams_of_text (b : Text) {p : Text} (h : p = [] ∨ ∃ m, p = '(' :: (m ++ [')'])) :
    IsNormalParams (normalParams b p) := by
  unfold normalParams
  refine ⟨?_, fun c hc => ?_, fun c hc hblank => ?_⟩
  · rcases h with rfl | ⟨m, rfl⟩
    · exact .inl rfl
    · right
      have hopen := Text.lowerAfter_append (s := ['(']) (by decide) b.reverse (m ++ [')'])
      obtain ⟨l, hl⟩ := Text.lowerAfter_concat (c := ')') (by decide) (['('].reverse ++ b.reverse) m
      rw [List.singleton_append] at hopen
      rw [hopen, hl]
      refine ⟨Text.collapse l, ?_⟩
      show '(' :: Text.collapseFrom false (l ++ [')']) = _
      rw [collapseFrom_concat (by decide)]
      rfl
  · rcases mem_collapseFrom c hc with rfl | ⟨hin, -⟩
    · decide
    · exact Text.mem_lowerAfter c hin
  · rcases mem_collapseFrom c hc with rfl | ⟨-, hfull⟩
    · rfl
    · rw [hfull] at hblank
      cases hblank

theorem isNormalParams_nil : IsNormalParams [] := ⟨.inl rfl, List.forall_mem_nil _, List.forall_mem_nil _⟩

theorem IsNormalName.strip_append {b q : Text} (hb : IsNormalName b) (hne : b ≠ []) (hq : IsNormalParams q) :
    Text.strip (b ++ q) = b ++ q := by
  refine strip_of_full ?_ ?_
  · obtain ⟨c, v, rfl⟩ := List.exists_cons_of_ne_nil hne
    exact stops_cons.2 (hb.starts c rfl)
  · rcases hq.closed with rfl | ⟨m, rfl⟩
    · obtain ⟨x, c, rfl, hc⟩ := eq_concat_of_ne_nil hne
      exact ⟨x, c, List.append_nil _, hb.full c hc⟩
    · exact ⟨b ++ '(' :: m, ')', by simp, by decide⟩

theorem IsNormalName.strip_self {b : Text} (hb : IsNormalName b) (hne : b ≠ []) : Text.strip b = b := by
  have hstrip := hb.strip_append hne isNormalParams_nil
  rwa [List.append_nil] at hstrip

/-- No white space ends the name: a part with only white space behind it is all of it. -/
theorem IsNormalName.eq_of_append_blank {a w b : Text} (hb : IsNormalName b) (h : a ++ w = b)
    (hw : ∀ c ∈ w, Text.isBlank c = true) : a = b := by
  rcases List.eq_nil_or_concat w with rfl | ⟨v, c, rfl⟩
  · rw [← h, List.append_nil]
  · have hlast : c ∈ b.getLast? := by
      rw [← h, List.concat_eq_append, ← List.append_assoc, List.getLast?_concat]
      rfl
    have hblank := hw c (by simp)
    rw [hb.full c hlast] at hblank
    cases hblank

/-- A name in the form of the look-up stays as it is there, with its parameters. -/
theorem normalType_name {b p : Text} (hb : IsNormalName b) (hne : b ≠ [])
    (hp : p = [] ∨ ∃ m, p = '(' :: (m ++ [')'])) : normalType (b ++ p) = b ++ normalParams b p := by
  have hlower : Text.lower (b ++ p) = b ++ Text.lowerAfter b.reverse p := by
    rw [Text.lower, Text.lowerAfter_append hb.settled, List.append_nil]
  have hcollapse : Text.collapse (b ++ Text.lowerAfter b.reverse p) = b ++ normalParams b p := by
    rw [Text.collapse, collapseFrom_append hne hb.full]
    exact congrArg (· ++ _) hb.collapsed
  rw [normalType, hlower, hcollapse]
  exact hb.strip_append hne (isNormalParams_of_text b hp)

/-! ## The parameters of a type of one digit -/

theorem filter_collapseFrom {inRun : Bool} {s : Text} (h : ∀ c ∈ s, Text.isBlank c = true → c = ' ') :
    (Text.collapseFrom inRun s).filter (· != ' ') = s.filter (· != ' ') := by
  fun_induction Text.collapseFrom inRun s with
  | case1 => rfl
  | case2 c s hc ih =>
    obtain ⟨hfirst, hrest⟩ := List.forall_mem_cons.1 h
    cases hfirst hc
    exact ih hrest
  | case3 inRun c s hc hrun ih =>
    obtain ⟨hfirst, hrest⟩ := List.forall_mem_cons.1 h
    cases hfirst hc
    exact ih hrest
  | case4 inRun c s hc ih => rw [List.filter_cons, List.filter_cons, ih (List.forall_mem_cons.1 h).2]

theorem mem_collapseFrom_of_full {inRun : Bool} {s : Text} {c : Char} (hc : c ∈ s) (hfull : Text.isBlank c = false) :
    c ∈ Text.collapseFrom inRun s := by
  fun_induction Text.collapseFrom inRun s with
  | case1 => cases hc
  | case2 d s hd ih =>
    rcases List.mem_cons.1 hc with rfl | hc
    · rw [hd] at hfull
      cases hfull
    · exact ih hc
  | case3 inRun d s hd hrun ih =>
    rcases List.mem_cons.1 hc with rfl | hc
    · rw [hd] at hfull
      cases hfull
    · exact List.mem_cons_of_mem _ (ih hc)
  | case4 inRun d s hd ih =>
    rcases List.mem_cons.1 hc with rfl | hc
    · exact List.mem_cons_self
    · exact List.mem_cons_of_mem _ (ih hc)

/-- Scanned tokens of ones and parentheses have no white space in them. -/
theorem isBlank_of_scanned {clause : Text} {inner : List Token} (hin : inner ⊆ tokenize clause)
    (h : ∀ c ∈ Column.paramsText inner, Text.isBlank c = true ∨ c ∈ "(1)".toList) :
    ∀ c ∈ Column.paramsText inner, Text.isBlank c = false := by
  refine List.forall_mem_cons.2 ⟨by decide, List.forall_mem_append.2 ⟨fun c hc => ?_, by decide⟩⟩
  obtain ⟨t, ht, hct⟩ := List.mem_flatMap.1 hc
  obtain ⟨r, hr⟩ := readsToken_of_mem (hin ht)
  rcases hr.quoted_or_full with ⟨-, m, hm, hmt⟩ | hfull
  · have hmark : ∀ m ∈ quoteMarks, ¬ (Text.isBlank m = true ∨ m ∈ "(1)".toList) := by decide
    have hmem : m ∈ Column.paramsText inner :=
      List.mem_cons_of_mem _ (List.mem_append_left _ (List.mem_flatMap.2 ⟨t, ht, hmt⟩))
    exact absurd (h m hmem) (hmark m hm)
  · exact hfull c hct

/-- Parameters are looked up as `(1)` if that is how they were read, spaces apart. -/
theorem normalParams_one_iff {clause b p : Text}
    (hp : p = [] ∨ ∃ inner, inner ⊆ tokenize clause ∧ p = Column.paramsText inner) :
    (normalParams b p).filter (· != ' ') = "(1)".toList ↔ p.filter (· != ' ') = "(1)".toList := by
  have hmem : ∀ {s : Text} {c : Char}, s.filter (· != ' ') = "(1)".toList → c ∈ s → c ≠ ' ' → c ∈ "(1)".toList := by
    intro s c hs hc hne
    rw [← hs, List.mem_filter]
    exact ⟨hc, bne_iff_ne.2 hne⟩
  constructor
  · intro h
    -- What is looked up comes from ones, parentheses and white space alone.
    have hchars : ∀ {s : Text}, (Text.collapse s).filter (· != ' ') = "(1)".toList →
        ∀ c ∈ s, Text.isBlank c = true ∨ c ∈ "(1)".toList := by
      intro s hs c hc
      cases hblank : Text.isBlank c with
      | true => exact .inl rfl
      | false =>
        refine .inr (hmem hs (mem_collapseFrom_of_full hc hblank) ?_)
        rintro rfl
        cases hblank
    rw [normalParams, Text.lowerAfter_eq_self (hchars h)] at h
    rcases hp with rfl | ⟨inner, hin, rfl⟩
    · exact h
    · rwa [collapse_eq_self (isBlank_of_scanned hin (hchars h))] at h
  · intro h
    have hone : ∀ c ∈ ' ' :: "(1)".toList, Text.Settled c ∧ (Text.isBlank c = true → c = ' ') := by decide
    have hchars : ∀ c ∈ p, Text.Settled c ∧ (Text.isBlank c = true → c = ' ') := by
      intro c hc
      refine hone c (List.mem_cons.2 ?_)
      by_cases hspace : c = ' '
      · exact .inl hspace
      · exact .inr (hmem h hc hspace)
    rw [normalParams, Text.lowerAfter_of_settled fun c hc => (hchars c hc).1, Text.collapse,
      filter_collapseFrom fun c hc => (hchars c hc).2, h]

/-! ## Where a type is split -/

namespace TypeParts

theorem params?_eq_some {s p : Text} (h : params? s = some p) :
    ∃ w, (∀ c ∈ w, Text.isBlank c = true) ∧ (p = [] ∧ s = w ∨
      ∃ line tail, p = '(' :: line ∧ s = w ++ '(' :: (line ++ tail) ∧ (tail = [] ∨ tail = ['\n'])) := by
  have hsplit := List.takeWhile_append_dropWhile (p := Text.isBlank) (l := s)
  refine ⟨s.takeWhile Text.isBlank, fun c => List.mem_takeWhile_imp, ?_⟩
  unfold params? at h
  split at h
  · rename_i hdrop
    cases h
    rw [hdrop, List.append_nil] at hsplit
    exact .inl ⟨rfl, hsplit.symm⟩
  · rename_i rest hdrop
    dsimp only at h
    split at h
    · rename_i hline
      cases h
      rw [Bool.and_eq_true, Text.atLastLineEnd, Bool.or_eq_true, beq_iff_eq, beq_iff_eq, beq_iff_eq] at hline
      refine .inr ⟨_, rest.dropWhile (· != '\n'), rfl, ?_, hline.2⟩
      rw [List.takeWhile_append_dropWhile, ← hdrop, hsplit]
    · cases h
  · cases h

theorem baseAfter?_eq_some {before s : Text} {parts : TypeParts} (h : baseAfter? before s = some parts) :
    ∃ x rest, s = x ++ rest ∧ parts.base = before.reverse ++ x ∧ (∀ c ∈ x, continuesBase c = true) ∧
      params? rest = some parts.params := by
  fun_induction baseAfter? before s with
  | case1 s before params hparams =>
    cases h
    exact ⟨[], s, rfl, (List.append_nil _).symm, List.forall_mem_nil _, hparams⟩
  | case2 => cases h
  | case3 before c s hc hparams ih =>
    obtain ⟨x, rest, rfl, hbase, hx, hrest⟩ := ih h
    refine ⟨c :: x, rest, rfl, ?_, List.forall_mem_cons.2 ⟨hc, hx⟩, hrest⟩
    rw [hbase, List.reverse_cons, List.append_assoc]
    rfl
  | case4 => cases h

theorem plain?_eq_some {s : Text} {parts : TypeParts} (h : plain? s = some parts) :
    ∃ rest, s = parts.base ++ rest ∧ (∀ c ∈ parts.base, continuesBase c = true) ∧
      params? rest = some parts.params := by
  unfold plain? at h
  split at h
  · cases h
  · split at h
    · rename_i c s hc
      obtain ⟨x, rest, rfl, hbase, hx, hrest⟩ := baseAfter?_eq_some h
      refine ⟨rest, ?_, ?_, hrest⟩
      · rw [hbase]
        rfl
      · rw [hbase]
        exact List.forall_mem_cons.2 ⟨by rw [continuesBase, hc]; rfl, hx⟩
    · cases h

/-- The names of the time types with a zone behind their parameters. -/
def zonedNames : List String :=
  ["timestamp with time zone", "timestamp without time zone", "time with time zone", "time without time zone"]

theorem zone?_cases {s zone : Text} (h : zone? s = some zone) : zone = "with".toList ∨ zone = "without".toList := by
  unfold zone? at h
  split at h
  · cases h
  · split at h
    · dsimp only at h
      split at h
      · split at h
        · exact .inl (Option.some.inj h).symm
        · cases h
      · split at h
        · split at h
          · exact .inr (Option.some.inj h).symm
          · cases h
        · cases h
    · cases h

theorem zoned?_base {s : Text} {parts : TypeParts} (h : zoned? s = some parts) :
    ∃ n ∈ zonedNames, parts.base = n.toList := by
  have hafter : ∀ {word : Text}, zonedAfter? word s = some parts →
      parts.base = word ++ " with time zone".toList ∨ parts.base = word ++ " without time zone".toList := by
    intro word h
    unfold zonedAfter? at h
    split at h
    · cases h
    · split at h
      · split at h
        · cases h
        · split at h
          · rename_i zone hzone
            cases h
            rcases zone?_cases hzone with rfl | rfl
            · exact .inl (List.append_assoc _ _ _)
            · exact .inr (List.append_assoc _ _ _)
          · cases h
      · cases h
  unfold zoned? at h
  split at h
  · rename_i parts' hparts
    cases h
    rcases hafter hparts with hbase | hbase
    · exact ⟨_, .head _, hbase⟩
    · exact ⟨_, .tail _ (.head _), hbase⟩
  · rcases hafter h with hbase | hbase
    · exact ⟨_, .tail _ (.tail _ (.head _)), hbase⟩
    · exact ⟨_, .tail _ (.tail _ (.tail _ (.head _))), hbase⟩

/-- Texts with one character behind parts without it agree on both sides of it. -/
theorem append_cons_inj {m : Char} {a b r q : Text} (ha : m ∉ a) (hb : m ∉ b)
    (h : a ++ m :: r = b ++ m :: q) : a = b ∧ r = q := by
  induction a generalizing b with
  | nil =>
    cases b with
    | nil => exact ⟨rfl, (List.cons.inj h).2⟩
    | cons c b =>
      obtain ⟨rfl, -⟩ := List.cons.inj h
      exact absurd List.mem_cons_self hb
  | cons c a ih =>
    cases b with
    | nil =>
      obtain ⟨rfl, -⟩ := List.cons.inj h
      exact absurd List.mem_cons_self ha
    | cons d b =>
      obtain ⟨rfl, hrest⟩ := List.cons.inj h
      obtain ⟨rfl, hr⟩ := ih (fun hin => ha (List.mem_cons_of_mem c hin))
        (fun hin => hb (List.mem_cons_of_mem c hin)) hrest
      exact ⟨rfl, hr⟩

/-- A type is split as a zoned time, where its name ends, or not at all. -/
theorem split_cases {b q : Text} (hb : IsNormalName b) (hne : b ≠ []) (hparen : '(' ∉ b)
    (hq : IsNormalParams q) :
    (∃ n ∈ zonedNames, (split (b ++ q)).base = n.toList) ∨
      split (b ++ q) = ⟨b, q.filter (· != ' ')⟩ ∨ split (b ++ q) = ⟨b ++ q, []⟩ := by
  unfold split
  cases hzoned : zoned? (b ++ q) with
  | some parts => exact .inl (zoned?_base hzoned)
  | none =>
    cases hplain : plain? (b ++ q) with
    | none => exact .inr (.inr rfl)
    | some parts =>
      refine .inr (.inl ?_)
      obtain ⟨rest, htext, hbase, hrest⟩ := plain?_eq_some hplain
      obtain ⟨w, hw, hparams⟩ := params?_eq_some hrest
      have hfront : '(' ∉ parts.base ++ w := by
        intro hin
        rcases List.mem_append.1 hin with hin | hin
        · exact absurd (hbase _ hin) (by decide)
        · exact absurd (hw _ hin) (by decide)
      suffices hsame : parts.base = b ∧ parts.params = q by
        dsimp only
        rw [hsame.1, hsame.2, hb.strip_self hne]
      rcases hparams with ⟨hnil, rfl⟩ | ⟨line, tail, hline, rfl, htail⟩
      · rcases hq.closed with rfl | ⟨m, rfl⟩
        · rw [List.append_nil] at htext
          exact ⟨hb.eq_of_append_blank htext.symm hw, hnil⟩
        · refine absurd ?_ hfront
          rw [← htext]
          simp
      · rw [← List.append_assoc] at htext
        rcases hq.closed with rfl | ⟨m, hm⟩
        · refine absurd ?_ hparen
          rw [List.append_nil] at htext
          rw [htext]
          simp
        · rw [hm] at htext
          obtain ⟨heq, hlast⟩ := append_cons_inj hparen hfront htext
          refine ⟨hb.eq_of_append_blank heq.symm hw, ?_⟩
          rcases htail with rfl | rfl
          · rw [hline, hm, hlast, List.append_nil]
          · have hnewline := hq.spaces '\n' (by rw [hm, hlast]; simp) (by decide)
            cases hnewline

end TypeParts

end TableDialects
