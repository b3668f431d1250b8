import Mathlib.Data.List.Chain
import TableDialects.Proofs.Reading.Section
import TableDialects.Proofs.Text.LetterCase
import TableDialects.Proofs.Token.Printed
import TableDialects.Script

/- How a CREATE TABLE statement opens. A script looks at the text of a statement
   (`Script.isCreateTable`), a reader at its tokens. For a statement in which a
   column section is found the two agree exactly if CREATE is its first token and
   only white space stands between the keywords (`Script.isCreateTable_iff`):
   the reader skips comments there, and whatever stands before the first
   CREATE. -/
namespace TableDialects

open Scan

/-! ## The letters of the keywords -/

namespace Text

/-- The letters of CREATE, TEMPORARY and TABLE. -/
def headingLetters : List Char := "CREATMPOYBL".toList

theorem unmixed_headingLetters : Unmixed headingLetters :=
  ⟨by decide, by decide +kernel, by decide +kernel⟩

/-- A character made of these letters in upper case is one of them. -/
theorem letter_of_upperChar {c : Char} (h : ∀ d ∈ upperChar c, d ∈ headingLetters) :
    isAsciiLetter c = true ∧ c ≠ 'N' ∧ c ≠ 'n' :=
  of_ascii (p := fun c => (∀ d ∈ upperChar c, d ∈ headingLetters) →
    isAsciiLetter c = true ∧ c ≠ 'N' ∧ c ≠ 'n') (by decide +kernel) (unmixed_headingLetters.ascii_of_upperChar h) h

theorem matched_headingLetters : Matched headingLetters := ⟨unmixed_headingLetters, by decide⟩

def IsHeadingWord (w : Text) : Prop := ∀ l ∈ w, l ∈ headingLetters

instance (w : Text) : Decidable (IsHeadingWord w) :=
  inferInstanceAs (Decidable (∀ l ∈ w, l ∈ headingLetters))

theorem letters_of_upper {v w : Text} (hw : IsHeadingWord w) (h : upper v = w) :
    ∀ c ∈ v, isAsciiLetter c = true ∧ c ≠ 'N' ∧ c ≠ 'n' := by
  intro c hc
  have hall : ∀ d ∈ upperChar c, d ∈ headingLetters := by
    intro d hd
    exact hw d (h ▸ List.mem_flatMap.2 ⟨c, hc, hd⟩)
  exact letter_of_upperChar hall

/-- A text that starts with a keyword, letter case apart, has a start that is the
keyword in upper case. -/
theorem exists_of_afterWord? {w s r : Text} (hw : IsHeadingWord w) (h : afterWord? w s = some r) :
    ∃ v, s = v ++ r ∧ upper v = w :=
  (matched_headingLetters.afterWord?_eq_some hw).1 h

theorem afterWord?_word {v w : Text} (r : Text) (hw : IsHeadingWord w) (hv : upper v = w) :
    afterWord? w (v ++ r) = some r :=
  (matched_headingLetters.afterWord?_eq_some hw).2 ⟨v, rfl, hv⟩

/-- No text starts with two keywords that differ before one of them ends. -/
theorem afterWord?_differs {v w r : Text} (hw : IsHeadingWord w) (h : ¬ upper v <+: w)
    (h' : ¬ w <+: upper v) : afterWord? w (v ++ r) = none := by
  cases hr : afterWord? w (v ++ r) with
  | none => rfl
  | some x =>
    obtain ⟨v', hsplit, rfl⟩ := exists_of_afterWord? hw hr
    -- Of two starts of one text one is a start of the other, in upper case as well.
    have hmono : ∀ {a b : Text}, a <+: b → upper a <+: upper b := by
      rintro a b ⟨y, rfl⟩
      exact ⟨upper y, (upper_append a y).symm⟩
    have hpre : v' <+: v ++ r := hsplit ▸ List.prefix_append v' x
    rcases List.prefix_or_prefix_of_prefix (List.prefix_append v r) hpre with hpre | hpre
    · exact absurd (hmono hpre) h
    · exact absurd (hmono hpre) h'

theorem afterWord?_stops {l : Char} {w r : Text} (hl : l ∈ headingLetters)
    (hr : Stops isAsciiLetter r) : afterWord? (l :: w) r = none := by
  cases r with
  | nil => rfl
  | cons c r =>
    rw [afterWord?, matched_headingLetters.sameLetter hl, if_neg]
    intro h
    have hall : ∀ d ∈ upperChar c, d ∈ headingLetters := by
      intro d hd
      rw [beq_iff_eq.1 h, List.mem_singleton] at hd
      exact hd ▸ hl
    have hletter := (letter_of_upperChar hall).1
    rw [stops_cons.1 hr] at hletter
    cases hletter

theorem isPlainChar_of_isAsciiLetter {c : Char} (h : isAsciiLetter c = true) : isPlainChar c = true := by
  rw [isPlainChar, h]
  rfl

theorem isBlank_of_isAsciiLetter {c : Char} (h : isAsciiLetter c = true) : isBlank c = false :=
  (facts_of_isPlainChar (isPlainChar_of_isAsciiLetter h)).2.1

theorem stops_of_upper {v w : Text} (hw : IsHeadingWord w) (hne : w ≠ []) (hv : upper v = w) (r : Text) :
    Stops isBlank (v ++ r) := by
  cases v with
  | nil => exact absurd hv.symm hne
  | cons c v => exact stops_cons.2 (isBlank_of_isAsciiLetter (letters_of_upper hw hv c List.mem_cons_self).1)

theorem stops_isAsciiLetter {r : Text} (h : Stops continuesWord r) : Stops isAsciiLetter r := by
  intro c hc
  cases hletter : isAsciiLetter c with
  | false => rfl
  | true =>
    have hword := (facts_of_isPlainChar (isPlainChar_of_isAsciiLetter hletter)).1
    rw [h c hc] at hword
    cases hword

/-- White space, and some of it. -/
def IsBlanks (b : Text) : Prop := b ≠ [] ∧ ∀ c ∈ b, isBlank c = true

end Text

/-! ## White space between the keywords -/

theorem blanks?_append {b r : Text} (hb : Text.IsBlanks b) (hr : Stops Text.isBlank r) :
    Rule.blanks? (b ++ r) = some r := by
  obtain ⟨hne, hall⟩ := hb
  cases b with
  | nil => exact absurd rfl hne
  | cons c b =>
    rw [List.cons_append, Rule.blanks?, if_pos (hall c List.mem_cons_self),
      hr.dropWhile_append fun d hd => hall d (List.mem_cons_of_mem c hd)]

theorem blanks?_stops {r : Text} (hr : Stops Text.isBlank r) : Rule.blanks? r = none := by
  cases r with
  | nil => rfl
  | cons c r => rw [Rule.blanks?, if_neg (by rw [stops_cons.1 hr]; exact Bool.false_ne_true)]

/-- Behind the white space at the start of any other gap no letter stands. -/
theorem Gap.stops_of_blanks? {g x r : Text} (hg : Gap x g) (hx : Stops Text.isBlank x)
    (hne : ¬ Text.IsBlanks g) (hr : Rule.blanks? (g ++ x) = some r) : Stops Text.isAsciiLetter r := by
  cases hg with
  | nil => rw [List.nil_append, blanks?_stops hx] at hr; cases hr
  | line hb hs h => cases hr
  | block hb h => cases hr
  | @blanks b g hb hall hs h =>
    rw [List.append_assoc, blanks?_append ⟨hb, hall⟩ hs] at hr
    cases hr
    cases h with
    | nil => exact absurd (by rw [List.append_nil]; exact ⟨hb, hall⟩) hne
    | line hb' hs' h' => exact stops_cons.2 (by decide)
    | block hb' h' => exact stops_cons.2 (by decide)
    | @blanks b' g' hb' hall' hs' h' =>
      -- White space was skipped as far as it goes.
      cases b' with
      | nil => exact absurd rfl hb'
      | cons c b' =>
        have hc := hall' c List.mem_cons_self
        rw [stops_cons.1 hs] at hc
        cases hc

namespace Script

def tableFollows (s : Text) : Bool :=
  match Text.afterWord? "TABLE" s with
  | none => false
  | some behind => Text.atBoundary (some 'E') behind

theorem tableFollows_stops {s : Text} (h : Stops Text.isAsciiLetter s) : tableFollows s = false := by
  rw [tableFollows, show "TABLE".toList = 'T' :: "ABLE".toList from rfl, Text.afterWord?_stops (by decide) h]

theorem skipTemporary_stops {s : Text} (h : Stops Text.isAsciiLetter s) : skipTemporary s = s := by
  rw [skipTemporary, show "TEMPORARY".toList = 'T' :: "EMPORARY".toList from rfl,
    show "TEMP".toList = 'T' :: "EMP".toList from rfl, Text.afterWord?_stops (by decide) h,
    Text.afterWord?_stops (by decide) h]
  rfl

/-- A keyword and a gap: the text behind them is looked at only if the gap is
white space. -/
theorem afterWord?_gap {w v g x : Text} (hw : Text.IsHeadingWord w) (hv : Text.upper v = w)
    (hg : Gap x g) (hx : Stops Text.isBlank x) :
    Text.IsBlanks g ∧ (Text.afterWord? w (v ++ (g ++ x))).bind Rule.blanks? = some x ∨
      ¬ Text.IsBlanks g ∧ ∀ r ∈ (Text.afterWord? w (v ++ (g ++ x))).bind Rule.blanks?,
        Stops Text.isAsciiLetter r := by
  rw [Text.afterWord?_word (g ++ x) hw hv, Option.bind_some]
  by_cases hb : Text.IsBlanks g
  · exact .inl ⟨hb, blanks?_append hb hx⟩
  · exact .inr ⟨hb, fun r hr => hg.stops_of_blanks? hx hb hr⟩

theorem isCreateTable_word {v g x : Text} (hv : Text.upper v = "CREATE".toList) (hg : Gap x g)
    (hx : Stops Text.isBlank x) :
    isCreateTable (v ++ (g ++ x)) = true ↔ Text.IsBlanks g ∧ tableFollows (skipTemporary x) = true := by
  have hstart : Rule.skipBlanks (v ++ (g ++ x)) = v ++ (g ++ x) :=
    (Text.stops_of_upper (by decide) (by decide) hv (g ++ x)).dropWhile_eq
  have hdef : isCreateTable (v ++ (g ++ x)) =
      (((Text.afterWord? "CREATE" (v ++ (g ++ x))).bind Rule.blanks?).any fun r =>
        tableFollows (skipTemporary r)) := by
    rw [isCreateTable, hstart]
    cases (Text.afterWord? "CREATE" (v ++ (g ++ x))).bind Rule.blanks? <;> rfl
  rw [hdef]
  rcases afterWord?_gap (by decide) hv hg hx with ⟨hb, hr⟩ | ⟨hb, hr⟩
  · rw [hr]
    exact ⟨fun h => ⟨hb, h⟩, fun h => h.2⟩
  · rw [Option.any_eq_true]
    constructor
    · rintro ⟨r, hmem, h⟩
      rw [skipTemporary_stops (hr r hmem), tableFollows_stops (hr r hmem)] at h
      cases h
    · rintro ⟨h, -⟩
      exact absurd h hb

theorem tableFollows_word {v r : Text} (hv : Text.upper v = "TABLE".toList)
    (hr : Stops continuesWord r) : tableFollows (v ++ r) = true := by
  rw [tableFollows, Text.afterWord?_word r (by decide) hv]
  cases r with
  | nil => rfl
  | cons c r =>
    have hc : Text.isWordChar c = false := by
      have := stops_cons.1 hr
      simp only [continuesWord, Bool.or_eq_false_iff] at this
      exact this.1.1.1
    show (true != Text.isWordChar c) = true
    rw [hc]
    rfl

theorem skipTemporary_table {v : Text} (hv : Text.upper v = "TABLE".toList) (r : Text) :
    skipTemporary (v ++ r) = v ++ r := by
  rw [skipTemporary, Text.afterWord?_differs (by decide), Text.afterWord?_differs (by decide)]
  · rfl
  all_goals
    rw [hv]
    decide

/-- The shorter keyword for a temporary table is not read where the longer one
stands. -/
theorem afterTemp?_temporary {s r : Text} (h : Text.afterWord? "TEMPORARY" s = some r) :
    (Text.afterWord? "TEMP" s).bind Rule.blanks? = none := by
  rw [show "TEMPORARY".toList = "TEMP".toList ++ "ORARY".toList from rfl, Text.afterWord?_append] at h
  obtain ⟨behind, hbehind, hmore⟩ := Option.bind_eq_some_iff.1 h
  rw [hbehind, Option.bind_some]
  cases behind with
  | nil => rfl
  | cons c behind =>
    cases hc : Text.isAsciiLetter c with
    | true => exact blanks?_stops (stops_cons.2 (Text.isBlank_of_isAsciiLetter hc))
    | false =>
      rw [show "ORARY".toList = 'O' :: "RARY".toList from rfl,
        Text.afterWord?_stops (by decide) (stops_cons.2 hc)] at hmore
      cases hmore

theorem tableFollows_temporary {v g x : Text}
    (hv : Text.upper v = "TEMPORARY".toList ∨ Text.upper v = "TEMP".toList) (hg : Gap x g)
    (hx : Stops Text.isBlank x) (hgx : Stops continuesWord (g ++ x)) :
    tableFollows (skipTemporary (v ++ (g ++ x))) = true ↔ Text.IsBlanks g ∧ tableFollows x = true := by
  have hself : tableFollows (v ++ (g ++ x)) = false := by
    rw [tableFollows, Text.afterWord?_differs (by decide)]
    all_goals
      rcases hv with hv | hv <;> rw [hv] <;> decide
  -- The text is looked at from behind the gap, or from behind its white space.
  have hskip : ∃ after : Option Text, skipTemporary (v ++ (g ++ x)) = after.getD (v ++ (g ++ x)) ∧
      (Text.IsBlanks g ∧ after = some x ∨
        ¬ Text.IsBlanks g ∧ ∀ r ∈ after, Stops Text.isAsciiLetter r) := by
    rcases hv with hv | hv
    · refine ⟨_, ?_, afterWord?_gap (by decide) hv hg hx⟩
      rw [skipTemporary, afterTemp?_temporary (Text.afterWord?_word (g ++ x) (by decide) hv)]
      cases (Text.afterWord? "TEMPORARY" (v ++ (g ++ x))).bind Rule.blanks? <;> rfl
    · refine ⟨_, ?_, afterWord?_gap (by decide) hv hg hx⟩
      have hlong : Text.afterWord? "TEMPORARY" (v ++ (g ++ x)) = none := by
        rw [show "TEMPORARY".toList = "TEMP".toList ++ 'O' :: "RARY".toList from rfl,
          Text.afterWord?_append, Text.afterWord?_word (g ++ x) (by decide) hv, Option.bind_some]
        exact Text.afterWord?_stops (by decide) (Text.stops_isAsciiLetter hgx)
      rw [skipTemporary, hlong]
      rfl
  obtain ⟨after, heq, ⟨hb, rfl⟩ | ⟨hb, hr⟩⟩ := hskip
  · rw [heq]
    exact ⟨fun h => ⟨hb, h⟩, fun h => h.2⟩
  · rw [heq]
    refine ⟨fun h => ?_, fun h => absurd h.1 hb⟩
    cases after with
    | none =>
      rw [Option.getD_none, hself] at h
      cases h
    | some r =>
      rw [Option.getD_some, tableFollows_stops (hr r rfl)] at h
      cases h

end Script

/-! ## The keywords as tokens -/

theorem Scanned.split {pos : Nat} {spaced : Bool} {s : Text} {t : Token} {ts : List Token}
    (h : Scanned pos spaced s (t :: ts)) :
    ∃ g r, s = g ++ (t.value ++ r) ∧ pos + g.length = t.start ∧ Gap (t.value ++ r) g ∧
      ReadsToken t.kind t.value r ∧ Scanned t.stop false r ts := by
  cases h with
  | @token _ _ g v r k _ hg hv h => exact ⟨g, r, rfl, rfl, hg, hv, h⟩

theorem start_of_mem_splitText {separator s part : Text} (h : part ∈ splitText separator s) :
    ∀ t ∈ (tokenize part).head?, t.start = 0 := by
  obtain ⟨group, hgroup, rfl⟩ := List.mem_map.1 h
  obtain ⟨hne, hin⟩ := mem_splitGroups hgroup
  cases group with
  | nil => exact absurd rfl hne
  | cons u us =>
    obtain ⟨g, r, htext, hg, -, ⟨c, w, hu, hp⟩, -⟩ := (scanned_groupText hin).1.split
    obtain rfl : g = [] := List.length_eq_zero_iff.1 (Nat.add_eq_left.1 hg)
    rw [htext, hu, List.nil_append, List.cons_append, tokenize, tokensFrom_of_token hp]
    intro t ht
    cases ht
    rfl

theorem ReadsToken.stops_word {v r : Text} (h : ReadsToken .word v r) : Stops continuesWord r := by
  cases h.rule with
  | word hc hw hr hn => exact hr

namespace Script

/-- How a CREATE TABLE statement may open. -/
def openings : List (List String) :=
  [["CREATE", "TABLE"], ["CREATE", "TEMPORARY", "TABLE"], ["CREATE", "TEMP", "TABLE"]]

/-- The first tokens of the text are the keywords of a CREATE TABLE statement, with
only white space between them. -/
def OpensPlainly (s : Text) : Prop :=
  ∃ words ∈ openings, ∃ keywords rest, Spells words keywords ∧ tokenize s = keywords ++ rest ∧
    keywords.IsChain fun t u => Text.IsBlanks (slice s t.stop u.start)

/-- A word of these letters is a token wherever no word goes on behind it. -/
theorem readsToken_letters {v w r : Text} (hw : Text.IsHeadingWord w) (hne : w ≠ [])
    (hv : Text.upper v = w) (hr : Stops continuesWord r) : ReadsToken .word v r := by
  have hletters := Text.letters_of_upper hw hv
  cases v with
  | nil => exact absurd hv.symm hne
  | cons c v =>
    obtain ⟨hc, hN, hn⟩ := hletters c List.mem_cons_self
    refine readsToken_word (by rw [startsWord, hc]; rfl) ?_ hr ?_
    · intro d hd
      have hletter := (hletters d (List.mem_cons_of_mem c hd)).1
      exact (facts_of_isPlainChar (Text.isPlainChar_of_isAsciiLetter hletter)).1
    · rintro (heq | heq)
      · exact absurd (List.cons.inj heq).1 hN
      · exact absurd (List.cons.inj heq).1 hn

theorem stops_of_blanks? {s r : Text} (h : Rule.blanks? s = some r) : Stops continuesWord s := by
  cases s with
  | nil => exact stops_nil _
  | cons c s =>
    rw [Rule.blanks?] at h
    split at h
    · exact stops_cons.2 (continuesWord_of_isBlank ‹_›)
    · cases h

/-- The first token of a text that opens with CREATE and white space. -/
theorem isWord_of_isCreateTable {s : Text} {t : Token} {ts : List Token} (hs : tokenize s = t :: ts)
    (hstart : t.start = 0) (h : isCreateTable s = true) : t.isWord "CREATE" = true := by
  have hscan := scanned_tokenize s
  rw [hs] at hscan
  rw [isCreateTable, Rule.skipBlanks, (hscan.startsFull hstart).dropWhile_eq] at h
  split at h
  · cases h
  · rename_i rest hrest
    obtain ⟨x, hx, hblanks⟩ := Option.bind_eq_some_iff.1 hrest
    obtain ⟨v, rfl, hv⟩ := Text.exists_of_afterWord? (by decide) hx
    obtain ⟨c, w, rfl, hp⟩ := readsToken_letters (by decide) (by decide) hv (stops_of_blanks? hblanks)
    rw [tokenize, List.cons_append, tokensFrom_of_token hp] at hs
    cases hs
    exact isWord_iff.2 ⟨rfl, hv⟩

theorem isCreateTable_table {s : Text} {create table : Token} {rest : List Token}
    (hs : tokenize s = create :: table :: rest) (hstart : create.start = 0)
    (hc : create.isWord "CREATE" = true) (ht : table.isWord "TABLE" = true) :
    isCreateTable s = true ↔ Text.IsBlanks (slice s create.stop table.start) := by
  obtain ⟨-, hcv⟩ := isWord_iff.1 hc
  obtain ⟨htk, htv⟩ := isWord_iff.1 ht
  have hscan := scanned_tokenize s
  rw [hs] at hscan
  obtain ⟨g₀, r₁, rfl, hg₀, -, -, hscan⟩ := hscan.split
  obtain ⟨g₁, r₂, rfl, hg₁, hgap, hread, -⟩ := hscan.split
  rw [htk] at hread
  obtain rfl : g₀ = [] := List.length_eq_zero_iff.1 (by omega)
  rw [List.nil_append]
  have hslice : slice (create.value ++ (g₁ ++ (table.value ++ r₂))) create.stop table.start = g₁ :=
    slice_of_lengths (by rw [Token.stop, hstart, Nat.zero_add]) hg₁
  rw [hslice, isCreateTable_word hcv hgap (hread.stops_blank r₂), skipTemporary_table htv,
    tableFollows_word htv hread.stops_word]
  exact and_iff_left rfl

theorem isCreateTable_temporary {s : Text} {create temporary table : Token} {rest : List Token}
    (hs : tokenize s = create :: temporary :: table :: rest) (hstart : create.start = 0)
    (hc : create.isWord "CREATE" = true)
    (hm : temporary.isWord "TEMPORARY" = true ∨ temporary.isWord "TEMP" = true)
    (ht : table.isWord "TABLE" = true) :
    isCreateTable s = true ↔ Text.IsBlanks (slice s create.stop temporary.start) ∧
      Text.IsBlanks (slice s temporary.stop table.start) := by
  obtain ⟨-, hcv⟩ := isWord_iff.1 hc
  obtain ⟨htk, htv⟩ := isWord_iff.1 ht
  obtain ⟨hmk, hmv⟩ : temporary.kind = .word ∧
      (Text.upper temporary.value = "TEMPORARY".toList ∨ Text.upper temporary.value = "TEMP".toList) := by
    rw [isWord_iff, isWord_iff] at hm
    tauto
  have hscan := scanned_tokenize s
  rw [hs] at hscan
  obtain ⟨g₀, r₁, rfl, hg₀, -, -, hscan⟩ := hscan.split
  obtain ⟨g₁, r₂, rfl, hg₁, hgap₁, hread₁, hscan⟩ := hscan.split
  obtain ⟨g₂, r₃, rfl, hg₂, hgap₂, hread₂, -⟩ := hscan.split
  rw [hmk] at hread₁
  rw [htk] at hread₂
  obtain rfl : g₀ = [] := List.length_eq_zero_iff.1 (by omega)
  rw [List.nil_append]
  have hslice₁ : slice (create.value ++ (g₁ ++ (temporary.value ++ (g₂ ++ (table.value ++ r₃)))))
      create.stop temporary.start = g₁ :=
    slice_of_lengths (by rw [Token.stop, hstart, Nat.zero_add]) hg₁
  have hslice₂ : slice (create.value ++ (g₁ ++ (temporary.value ++ (g₂ ++ (table.value ++ r₃)))))
      temporary.stop table.start = g₂ := by
    rw [← List.append_assoc, ← List.append_assoc]
    refine slice_of_lengths ?_ hg₂
    rw [Token.stop] at hg₁ ⊢
    simp only [List.length_append]
    omega
  rw [hslice₁, hslice₂, isCreateTable_word hcv hgap₁ (hread₁.stops_blank _),
    tableFollows_temporary hmv hgap₂ (hread₂.stops_blank r₃) hread₁.stops_word,
    tableFollows_word htv hread₂.stops_word]
  exact and_congr_right fun _ => and_iff_left rfl

/-- Of a text that starts with these keywords only the gaps between them decide. -/
theorem isCreateTable_spelled {s : Text} {words : List String} {keywords rest : List Token}
    (hwords : words ∈ openings) (hspells : Spells words keywords) (hs : tokenize s = keywords ++ rest)
    (hstart : ∀ t ∈ (tokenize s).head?, t.start = 0) :
    isCreateTable s = true ↔ keywords.IsChain fun t u => Text.IsBlanks (slice s t.stop u.start) := by
  simp only [openings, List.mem_cons, List.not_mem_nil, or_false] at hwords
  obtain ⟨create, more, rfl⟩ : ∃ create more, keywords = create :: more := by
    cases keywords with
    | nil => rcases hwords with rfl | rfl | rfl <;> exact absurd hspells id
    | cons create more => exact ⟨create, more, rfl⟩
  have hzero : create.start = 0 := hstart create (by rw [hs]; rfl)
  rcases hwords with rfl | hwords
  · obtain ⟨hc, hmore⟩ := hspells
    obtain ⟨table, _, rfl, ht, hnil⟩ := hmore.cons
    obtain rfl := hnil.nil
    rw [isCreateTable_table hs hzero hc ht]
    simp
  · obtain ⟨hc, temporary, table, rfl, hm, ht⟩ : create.isWord "CREATE" = true ∧ ∃ temporary table,
        more = [temporary, table] ∧
          (temporary.isWord "TEMPORARY" = true ∨ temporary.isWord "TEMP" = true) ∧
          table.isWord "TABLE" = true := by
      rcases hwords with rfl | rfl
      all_goals
        obtain ⟨hc, hmore⟩ := hspells
        obtain ⟨temporary, _, rfl, hm, hlast⟩ := hmore.cons
        obtain ⟨table, _, rfl, ht, hnil⟩ := hlast.cons
        obtain rfl := hnil.nil
      · exact ⟨hc, temporary, table, rfl, .inl hm, ht⟩
      · exact ⟨hc, temporary, table, rfl, .inr hm, ht⟩
    rw [isCreateTable_temporary hs hzero hc hm ht]
    simp

theorem heading_spells (h : Heading) :
    ∃ words ∈ openings, Spells words (h.create :: (h.temporary ++ [h.table])) := by
  rcases h.temporary_words with hnil | hlong | hshort
  · refine ⟨_, List.mem_cons_self, h.create_word, ?_⟩
    rw [hnil]
    exact ⟨h.table_word, trivial⟩
  · refine ⟨["CREATE", "TEMPORARY", "TABLE"], by decide, h.create_word, ?_⟩
    obtain ⟨t, _, heq, ht, hnil⟩ := hlong.cons
    rw [heq, hnil.nil]
    exact ⟨ht, h.table_word, trivial⟩
  · refine ⟨["CREATE", "TEMP", "TABLE"], by decide, h.create_word, ?_⟩
    obtain ⟨t, _, heq, ht, hnil⟩ := hshort.cons
    rw [heq, hnil.nil]
    exact ⟨ht, h.table_word, trivial⟩

/-- A statement in which a section is found, and whose first token stands at its
start, is taken for a CREATE TABLE statement exactly if it opens plainly. -/
theorem isCreateTable_iff {s : Text} {found : Section} (hfound : Section.locate s = .ok found)
    (hstart : ∀ t ∈ (tokenize s).head?, t.start = 0) : isCreateTable s = true ↔ OpensPlainly s := by
  constructor
  · intro h
    obtain ⟨heading, opening, rest, htokens, -⟩ := Section.heading_of_locate hfound
    obtain ⟨words, hwords, hspells⟩ := heading_spells heading
    -- The heading starts at the first CREATE, and CREATE is the first token.
    have hlead : heading.lead = [] := by
      cases hl : heading.lead with
      | nil => rfl
      | cons t lead =>
        have hother := heading.lead_other t (by rw [hl]; exact List.mem_cons_self)
        have hs : tokenize s = t :: (tokenize s).tail := by
          rw [htokens, Heading.tokens, hl]
          rfl
        rw [isWord_of_isCreateTable hs (hstart t (by rw [hs]; rfl)) h] at hother
        cases hother
    have hs : tokenize s = (heading.create :: (heading.temporary ++ [heading.table])) ++
        (heading.guard ++ heading.name ++ opening :: rest) := by
      rw [htokens, Heading.tokens, hlead]
      simp
    exact ⟨words, hwords, _, _, hspells, hs, (isCreateTable_spelled hwords hspells hs hstart).1 h⟩
  · rintro ⟨words, hwords, keywords, rest, hspells, hs, hchain⟩
    exact (isCreateTable_spelled hwords hspells hs hstart).2 hchain

end Script
end TableDialects
