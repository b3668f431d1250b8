import TableDialects.Proofs.Reading.Section
import TableDialects.Proofs.Written.Column

/- Where defaults come from. Every reader leaves an end of the tokens it was given,
   so the tokens of a default are tokens of the clause that it stands in
   (`Statement.default_of_read`). A number or a string in one line that was scanned
   is therefore a value (`isValue_of_scanned`). -/
namespace TableDialects

/-! ## Options -/

namespace ColumnOption

def defaultTokens : ColumnOption → List Token
  | .default e => e
  | _ => []

/-- The tokens of a default are among those that the reader is given. -/
def Draws (reader : List Token → Reading ColumnOption) : Prop :=
  ∀ ts rest o, reader ts = .ok (o, rest) → o.defaultTokens ⊆ ts

theorem draws_of_nil {reader : List Token → Reading ColumnOption}
    (h : ∀ ts rest o, reader ts = .ok (o, rest) → o.defaultTokens = []) : Draws reader := by
  intro ts rest o ho
  rw [h ts rest o ho]
  exact List.nil_subset ts

theorem draws_mapValue {α : Type} (reader : List Token → Reading α) (f : α → ColumnOption)
    (hf : ∀ a, (f a).defaultTokens = []) : Draws fun ts => (reader ts).mapValue f := by
  refine draws_of_nil fun ts rest o h => ?_
  obtain ⟨a, -, rfl⟩ := Reading.of_mapValue_ok h
  exact hf a

theorem draws_default : Draws (expression .default) := by
  intro ts rest o h
  obtain ⟨e, he, rfl⟩ := Reading.of_mapValue_ok h
  rw [← takeExpression_append he]
  exact List.subset_append_left e rest

theorem eq_of_skipGroup {option o : ColumnOption} {ts left : List Token}
    (h : skipGroup option ts = .ok (o, left)) : o = option := by
  unfold skipGroup at h
  split at h
  · obtain ⟨_, -, ho⟩ := Reading.of_mapValue_ok h
    exact ho.symm
  · cases h
    rfl

theorem draws_skipGroup {option : ColumnOption} (ho : option.defaultTokens = []) : Draws (skipGroup option) :=
  draws_of_nil fun _ _ _ h => eq_of_skipGroup h ▸ ho

theorem draws_computed (all : List Token) : Draws (computed all) := by
  refine draws_of_nil fun ts rest o h => ?_
  unfold computed at h
  split at h
  · rw [eq_of_skipGroup h]
    rfl
  · split at h
    · cases h
      rfl
    · split at h
      · split at h
        · cases h
        · cases h
          rfl
      · cases h
        rfl

theorem draws_table : ∀ e ∈ table, Draws e.2 := by
  intro e he
  have hplain : ∀ {option : ColumnOption} {left : List Token → List Token}, option.defaultTokens = [] →
      Draws fun ts => .ok (option, left ts) := by
    intro option left ho
    refine draws_of_nil fun ts rest o h => ?_
    cases h
    exact ho
  simp only [table, List.mem_cons, List.not_mem_nil, or_false] at he
  rcases he with rfl | rfl | rfl | rfl | rfl | rfl | rfl | rfl | rfl | rfl | rfl | rfl | rfl | rfl |
    rfl | rfl
  · exact hplain rfl
  · exact hplain rfl
  · exact draws_default
  · exact hplain rfl
  · exact hplain rfl
  · exact draws_skipGroup rfl
  · exact hplain rfl
  · exact hplain rfl
  · exact draws_mapValue takeReference _ fun r => rfl
  · exact draws_mapValue takeExpression _ fun e => rfl
  · exact draws_mapValue takeToken (fun _ => skipped) fun t => rfl
  · exact draws_mapValue takeToken ofComment fun t => rfl
  · exact draws_mapValue takeToken (fun t => collate t.value) fun t => rfl
  · exact draws_mapValue takeToken (fun _ => skipped) fun t => rfl
  · exact draws_mapValue takeToken (fun _ => skipped) fun t => rfl
  · exact draws_mapValue (takeName _) (fun _ => skipped) fun n => rfl

theorem byKeyword?_draws {table : List (List String × (List Token → Reading ColumnOption))}
    (ht : ∀ e ∈ table, Draws e.2) {ts rest : List Token} {o : ColumnOption}
    (h : byKeyword? table ts = some (.ok (o, rest))) : o.defaultTokens ⊆ ts := by
  induction table with
  | nil => cases h
  | cons e table ih =>
    obtain ⟨words, reader⟩ := e
    rw [byKeyword?] at h
    split at h
    · exact List.Subset.trans (ht _ List.mem_cons_self _ _ _ (Option.some.inj h)) (afterWords?_suffix ‹_›).subset
    · exact ih (fun e he => ht e (List.mem_cons_of_mem _ he)) h

/-- The tokens of a default are among those that it is read from. -/
theorem read_draws {t : Token} {ts rest : List Token} {o : ColumnOption} (h : read t ts = .ok (o, rest)) :
    o.defaultTokens ⊆ t :: ts := by
  unfold read at h
  split at h
  · exact List.Subset.trans (draws_computed _ _ _ _ h)
      ((afterGenerated_suffix ts).trans (List.suffix_cons t ts)).subset
  · split at h
    · exact List.Subset.trans (draws_mapValue takeGroup _ (fun _ => rfl) _ _ _ h)
        (afterCheck?_isBehind ‹_›).1.subset
    · cases hfound : byKeyword? table (t :: ts) with
      | none =>
        rw [hfound] at h
        cases h
        exact List.nil_subset _
      | some r =>
        rw [hfound, Option.getD_some] at h
        rw [h] at hfound
        exact byKeyword?_draws draws_table hfound

theorem readAll_drawn {ts : List Token} {os : List ColumnOption} (h : readAll ts = .ok os) :
    ∀ e, .default e ∈ os → e ⊆ ts := by
  fun_induction readAll ts generalizing os with
  | case1 =>
    cases h
    exact fun e he => absurd he List.not_mem_nil
  | case2 => cases h
  | case3 => cases h
  | case4 t ts o left hread os' hmore ih =>
    cases h
    intro e he
    have hleft := (read_isBehind hread).1
    have hdefault := read_draws hread
    rcases List.mem_cons.1 he with he | he
    · rw [← he] at hdefault
      exact hdefault
    · exact List.Subset.trans (ih hmore e he) hleft.subset

end ColumnOption

/-! ## Columns -/

namespace Column

theorem takeSequence_suffix (candidates : List (List String)) (ts : List Token) :
    (takeSequence candidates ts).2 <:+ ts := by
  fun_induction takeSequence candidates ts with
  | case1 => exact List.suffix_refl _
  | case2 ts words candidates rest hwords => exact afterWords?_suffix hwords
  | case3 ts words candidates hwords ih => exact ih

theorem takeTypeWords_suffix (t : Token) (ts : List Token) : (takeTypeWords t ts).2 <:+ ts := by
  unfold takeTypeWords
  split
  · exact List.suffix_refl ts
  · exact takeSequence_suffix _ ts

theorem takeParams_suffix {words : List Text} {ts rest : List Token} {p : Text × List Text}
    (h : takeParams words ts = .ok (p, rest)) : rest <:+ ts := by
  unfold takeParams at h
  split at h
  · split at h
    · cases h
    · rename_i inner left hgroup
      have hzone : (if words == ["timestamp".toList] || words == ["time".toList] then
          takeSequence zoneSuffixes left else ([], left)).2 <:+ left := by
        split
        · exact takeSequence_suffix _ left
        · exact List.suffix_refl left
      cases h
      exact hzone.trans (takeGroup_suffix hgroup)
  · cases h
    exact List.suffix_refl _

/-- The modifiers of a type leave an end of the tokens and set no default. -/
theorem takeModifiers_suffix (c : Column) (ts : List Token) :
    (takeModifiers c ts).2 <:+ ts ∧ (takeModifiers c ts).1.default = c.default := by
  fun_induction takeModifiers c ts with
  | case1 => exact ⟨List.suffix_refl _, rfl⟩
  | case2 c t ts ht ih => exact ⟨ih.1.trans (List.suffix_cons t ts), ih.2⟩
  | case3 c t ts hn ht ih => exact ⟨ih.1.trans (List.suffix_cons t ts), ih.2⟩
  | case4 => exact ⟨List.suffix_refl _, rfl⟩

theorem takeType_suffix {name : Text} {ts rest : List Token} {c : Column}
    (h : takeType name ts = .ok (c, rest)) : rest <:+ ts ∧ c.default = none := by
  unfold takeType at h
  split at h
  · cases h
    exact ⟨List.suffix_refl _, rfl⟩
  · rename_i t ts
    split at h
    · have hwords := takeTypeWords_suffix t ts
      dsimp only at h
      split at h
      · cases h
      · rename_i params suffix left hparams
        have hmodifiers : ∀ b : Column, b.default = none → takeModifiers b left = (c, rest) →
            rest <:+ left ∧ c.default = none := by
          intro b hb hstep
          have hleft := takeModifiers_suffix b left
          rw [hstep, hb] at hleft
          exact hleft
        obtain ⟨hrest, hnone⟩ := hmodifiers _ rfl (Except.ok.inj h)
        exact ⟨hrest.trans ((takeParams_suffix hparams).trans (hwords.trans (List.suffix_cons t ts))), hnone⟩
    · cases h
      exact ⟨List.suffix_refl _, rfl⟩

theorem default_foldl_apply {os : List ColumnOption} {c : Column} {e : List Token}
    (h : (os.foldl apply c).default = some e) : c.default = some e ∨ .default e ∈ os := by
  induction os generalizing c with
  | nil => exact .inl h
  | cons o os ih =>
    rcases ih h with h | h
    · cases o with
      | default e' =>
        cases h
        exact .inr List.mem_cons_self
      | _ => exact .inl h
    · exact .inr (List.mem_cons_of_mem o h)

theorem default_of_read {clause : Text} {ts : List Token} {c : Column} (h : read clause ts = .ok c) :
    ∀ e ∈ c.default, e ⊆ ts := by
  unfold read at h
  split at h
  · cases h
  · rename_i t ts
    split at h
    · split at h
      · cases h
      · rename_i column left htype
        obtain ⟨hleft, hnone⟩ := takeType_suffix htype
        split at h
        · cases h
        · rename_i options hoptions
          cases h
          intro e he
          rcases default_foldl_apply he with he | he
          · rw [show column.default = some e from he] at hnone
            cases hnone
          · exact List.Subset.trans (ColumnOption.readAll_drawn hoptions e he)
              (List.Subset.trans hleft.subset (List.subset_cons_self t ts))
    · cases h

end Column

/-- A clause that is a column was read as one from its tokens. -/
theorem Clause.column_of_read {clause : Text} {c : Column} (h : Clause.read clause = .ok (.column c)) :
    Column.read clause (tokenize clause) = .ok c := by
  unfold Clause.read at h
  split at h
  · cases h
  · split at h
    · cases h
    · cases h
    · split at h
      · cases h
      · rename_i found hfound
        cases h
        exact hfound

namespace Statement

theorem mem_columnsOf {cs : List Clause} {c : Column} (h : c ∈ columnsOf cs) : .column c ∈ cs := by
  obtain ⟨clause, hin, hc⟩ := List.mem_filterMap.1 h
  cases clause with
  | column b =>
    cases hc
    exact hin
  | constraint b => cases hc

theorem exists_of_readClauses {clauses : List Text} {cs : List Clause} (h : readClauses clauses = .ok cs) :
    ∀ c ∈ cs, ∃ clause, Clause.read clause = .ok c := by
  fun_induction readClauses clauses generalizing cs with
  | case1 =>
    cases h
    exact fun c hc => nomatch hc
  | case2 => cases h
  | case3 => cases h
  | case4 clause clauses first hfirst rest hrest ih =>
    cases h
    intro c hc
    rcases List.mem_cons.1 hc with rfl | hc
    · exact ⟨clause, hfirst⟩
    · exact ih hrest c hc

/-- Each column of a statement was read from the tokens of a clause. -/
theorem column_of_read {sql : Text} {s : Statement} (h : read sql = .ok s) :
    ∀ c ∈ s.columns, ∃ clause, Column.read clause (tokenize clause) = .ok c := by
  unfold read at h
  split at h
  · cases h
  · split at h
    · cases h
    · split at h
      · cases h
      · rename_i cs hclauses
        cases h
        intro c hc
        obtain ⟨clause, hclause⟩ := exists_of_readClauses hclauses _ (mem_columnsOf hc)
        exact ⟨clause, Clause.column_of_read hclause⟩

theorem default_of_read {sql : Text} {s : Statement} (h : read sql = .ok s) :
    ∀ c ∈ s.columns, ∀ ts ∈ c.default, ∀ t ∈ ts, ∃ clause, t ∈ tokenize clause := by
  intro c hc ts hts t ht
  obtain ⟨clause, hclause⟩ := column_of_read h c hc
  exact ⟨clause, Column.default_of_read hclause ts hts ht⟩

end Statement

/-! ## Scanned values -/

open Scan in
/-- What is scanned as a number reads as one, and a string is quoted text. -/
theorem ReadsToken.literal {k : TokenKind} {v r : Text} (h : ReadsToken k v r) :
    (k = .number → ReadsNumber v r) ∧ (k = .string → ∃ lead body, v = lead ++ '\'' :: body ∧
      (lead = [] ∨ lead = ['N'] ∨ lead = ['n']) ∧ QuotedBody '\'' body) := by
  constructor
  · rintro rfl
    cases h.rule with
    | number hn => exact hn
  · rintro rfl
    cases h.rule with
    | string hlead hr => exact ⟨_, _, rfl, hlead, quotedBody_double _ _⟩

theorem readsToken_of_mem {s : Text} {t : Token} (h : t ∈ tokenize s) : ∃ r, ReadsToken t.kind t.value r := by
  have hscanned : ∀ {pos : Nat} {spaced : Bool} {s : Text} {ts : List Token}, Scanned pos spaced s ts →
      t ∈ ts → ∃ r, ReadsToken t.kind t.value r := by
    intro pos spaced s ts hs
    induction hs with
    | done hg => exact fun hin => nomatch hin
    | @token pos spaced g v r k ts hg hv hrest ih =>
      intro hin
      rcases List.mem_cons.1 hin with rfl | hin
      · exact ⟨r, hv⟩
      · exact ih hin
  exact hscanned (scanned_tokenize s) h

def Token.IsConstant (t : Token) : Prop :=
  t.kind = .number ∨ t.kind = .string ∧ ∀ c ∈ t.value, c ≠ '\n' ∧ c ≠ '\r'

/-- A number or a string in one line that was scanned is a value. -/
theorem isValue_of_scanned {s : Text} {t : Token} (h : t ∈ tokenize s) (ht : t.IsConstant) : t.IsValue := by
  obtain ⟨r, hr⟩ := readsToken_of_mem h
  obtain ⟨hnumber, hstring⟩ := hr.literal
  unfold Token.IsValue
  rcases ht with hk | ⟨hk, hline⟩
  · rw [hk]
    exact (hnumber hk).thinned (Thinned.left [] r)
  · rw [hk]
    exact ⟨hstring hk, hline⟩

end TableDialects
