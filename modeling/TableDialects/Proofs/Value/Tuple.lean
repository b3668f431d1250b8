import Mathlib.Data.List.Forall2
import TableDialects.Proofs.Value.Spelling

/- The tuple of a row confines every value: its tokens are one group for each
   column between two parentheses, and each group is the literal of its column
   (`insertTuple_confines`). The tokens of a tuple are put together from the
   spellings of its literals (`bare_tokenize_tuple`), so that splitting them at
   commas gives the spellings back. -/
namespace TableDialects

/-! ## The tokens of a tuple -/

def apartFirst : List Token → List Token
  | [] => []
  | t :: ts => t.apart :: ts

/-- The spellings of literals as they stand in a tuple: each but the first behind a
blank. -/
def tupleGroups : List (List Token) → List (List Token)
  | [] => []
  | ts :: tss => ts :: tss.map apartFirst

def tupleTokens (tss : List (List Token)) : List Token :=
  Token.mark '(' :: (joinClauses (tupleGroups tss) ++ [Token.mark ')'])

theorem ReadsAll.apartFirst {r : Text} {ts : List Token} (h : ReadsAll r ts) :
    ReadsAll r (TableDialects.apartFirst ts) := by
  cases ts with
  | nil => exact h
  | cons t ts => exact h

theorem Spelling.renderBehind_apartFirst {literal : Text} {ts : List Token} (h : Spelling literal ts) :
    TableDialects.renderBehind Token.value (apartFirst ts) = ' ' :: literal := by
  have htext := h.renderBehind
  cases ts with
  | nil => exact absurd rfl h.ne_nil
  | cons t ts =>
    have hspaced : t.spaced = false := by
      rw [(h.glued t List.mem_cons_self).2]
      rfl
    rw [TableDialects.renderBehind, hspaced] at htext
    rw [← htext]
    rfl

/-- Behind the first literal of a tuple, the rest of it is read as its tokens. -/
theorem readsAll_behind {parts : List Text} {tss : List (List Token)}
    (h : List.Forall₂ Spelling parts tss) :
    let ts := ((tss.map apartFirst).flatMap fun c => Token.mark ',' :: c) ++ [Token.mark ')']
    renderBehind Token.value ts = (parts.flatMap fun p => ", ".toList ++ p) ++ [')'] ∧
      ReadsAll [] ts ∧ Breaks (renderBehind Token.value ts) := by
  induction h with
  | nil => exact ⟨rfl, ⟨readsToken_mark (by decide) _, trivial⟩, breaks_cons.2 (by decide)⟩
  | @cons part ts parts tss hpart hrest ih =>
    obtain ⟨htext, hreads, hbreaks⟩ := ih
    have hgroup : ReadsAll [] (apartFirst ts ++
        (((tss.map apartFirst).flatMap fun c => Token.mark ',' :: c) ++ [Token.mark ')'])) := by
      refine ReadsAll.append (ReadsAll.apartFirst (hpart.reads _ ?_)) hreads
      rw [List.append_nil]
      exact hbreaks
    intro us
    have hus : us = Token.mark ',' :: (apartFirst ts ++
        (((tss.map apartFirst).flatMap fun c => Token.mark ',' :: c) ++ [Token.mark ')'])) := by
      simp [us]
    rw [hus]
    refine ⟨?_, ⟨readsToken_mark (by decide) _, hgroup⟩, breaks_cons.2 (by decide)⟩
    rw [renderBehind, renderBehind_append, htext, hpart.renderBehind_apartFirst]
    simp [Token.mark]

theorem bare_tokenize_tuple {parts : List Text} {tss : List (List Token)}
    (h : List.Forall₂ Spelling parts tss) (hne : parts ≠ []) :
    bare (tokenize ('(' :: Text.join ", " parts ++ [')'])) = shapes (tupleTokens tss) := by
  cases h with
  | nil => exact absurd rfl hne
  | @cons part ts parts tss hpart hrest =>
    obtain ⟨htext, hreads, hbreaks⟩ := readsAll_behind hrest
    have hinner : joinClauses (tupleGroups (ts :: tss)) ++ [Token.mark ')'] = ts ++
        (((tss.map apartFirst).flatMap fun c => Token.mark ',' :: c) ++ [Token.mark ')']) := by
      rw [tupleGroups, joinClauses_cons, List.append_assoc]
    have hall : ReadsAll [] (tupleTokens (ts :: tss)) := by
      refine ⟨readsToken_mark (by decide) _, ?_⟩
      rw [hinner]
      refine ReadsAll.append (hpart.reads _ ?_) hreads
      rw [List.append_nil]
      exact hbreaks
    have hrender : renderTokens (tupleTokens (ts :: tss)) =
        '(' :: Text.join ", " (part :: parts) ++ [')'] := by
      show ['('] ++ renderBehind Token.value _ = _
      rw [hinner, renderBehind_append, hpart.renderBehind, htext, join_cons]
      simp
    rw [← hrender]
    exact bare_tokenize_renderTokens hall

/-! ## The groups of a tuple -/

/-- What the groups of a tuple have in common: none of their tokens is a mark, and
only the first may stand apart. -/
structure IsItem (ts : List Token) : Prop where
  ne_nil : ts ≠ []
  kinds : ∀ t ∈ ts, t.kind ≠ .punct
  tail : ∀ t ∈ ts.tail, t.spaced = false

theorem Spelling.isItem {literal : Text} {ts : List Token} (h : Spelling literal ts) : IsItem ts := by
  refine ⟨h.ne_nil, fun t ht => (h.glued t ht).1, fun t ht => ?_⟩
  rw [(h.glued t (List.mem_of_mem_tail ht)).2]
  rfl

theorem IsItem.apartFirst {ts : List Token} (h : IsItem ts) : IsItem (TableDialects.apartFirst ts) := by
  cases ts with
  | nil => exact h
  | cons t ts =>
    refine ⟨List.cons_ne_nil _ _, fun u hu => ?_, h.tail⟩
    rcases List.mem_cons.1 hu with rfl | hu
    · exact h.kinds t List.mem_cons_self
    · exact h.kinds u (List.mem_cons_of_mem t hu)

theorem IsItem.whole {ts : List Token} (h : IsItem ts) : Whole ts := by
  have hall := h.kinds
  clear h
  induction ts with
  | nil => exact whole_nil
  | cons t ts ih =>
    exact (whole_token (hall t List.mem_cons_self)).append (ih fun u hu => hall u (List.mem_cons_of_mem t hu))

theorem IsItem.of_bare {ts us : List Token} (h : IsItem ts) (hbare : bare us = bare ts) : IsItem us := by
  have hkinds : us.map Token.kind = ts.map Token.kind := by
    have := congrArg (List.map Token.kind) hbare
    simpa [bare, List.map_map, Function.comp_def] using this
  have hspaced : us.map Token.spaced = ts.map Token.spaced := by
    have := congrArg (List.map Token.spaced) hbare
    simpa [bare, List.map_map, Function.comp_def] using this
  refine ⟨?_, fun u hu => ?_, fun u hu => ?_⟩
  · rintro rfl
    exact h.ne_nil (List.map_eq_nil_iff.1 hbare.symm)
  · have hin : u.kind ∈ ts.map Token.kind := hkinds ▸ List.mem_map_of_mem hu
    obtain ⟨t, ht, hkind⟩ := List.mem_map.1 hin
    exact hkind ▸ h.kinds t ht
  · have hin : u.spaced ∈ ts.tail.map Token.spaced := by
      rw [List.map_tail, ← hspaced, ← List.map_tail]
      exact List.mem_map_of_mem hu
    obtain ⟨t, ht, hspaced⟩ := List.mem_map.1 hin
    exact hspaced ▸ h.tail t ht

theorem isItem_tupleGroups {parts : List Text} {tss : List (List Token)}
    (h : List.Forall₂ Spelling parts tss) : ∀ g ∈ tupleGroups tss, IsItem g := by
  have hitems : ∀ ts ∈ tss, IsItem ts := by
    induction h with
    | nil => exact fun _ hts => absurd hts List.not_mem_nil
    | cons hpart hrest ih =>
      intro us hus
      rcases List.mem_cons.1 hus with rfl | hus
      · exact hpart.isItem
      · exact ih us hus
  intro g hg
  cases tss with
  | nil => exact absurd hg List.not_mem_nil
  | cons ts tss =>
    rcases List.mem_cons.1 hg with rfl | hg
    · exact hitems _ List.mem_cons_self
    · obtain ⟨us, hus, rfl⟩ := List.mem_map.1 hg
      exact (hitems us (List.mem_cons_of_mem ts hus)).apartFirst

theorem map_word_tupleGroups (tss : List (List Token)) :
    (tupleGroups tss).map (List.map Token.word) = tss.map (List.map Token.word) := by
  have hword : ∀ ts : List Token, (apartFirst ts).map Token.word = ts.map Token.word := by
    intro ts
    cases ts <;> rfl
  cases tss with
  | nil => rfl
  | cons ts tss =>
    rw [tupleGroups, List.map_cons, List.map_map, List.map_cons]
    exact congrArg _ (List.map_congr_left fun us _ => hword us)

theorem not_paren {t : Token} (h : t.kind ≠ .punct) : t.shape.isOpen = false ∧ t.shape.isClose = false := by
  have hpunct : (t.kind == TokenKind.punct) = false := beq_eq_false_iff_ne.2 h
  simp [Token.shape, Token.isOpen, Token.isClose, Token.isPunct, hpunct]

/-- The tokens of a tuple: between its parentheses no other one stands, and the
groups between its commas are the spellings of its literals. -/
theorem tokenize_tuple {parts : List Text} {tss : List (List Token)}
    (h : List.Forall₂ Spelling parts tss) (hne : parts ≠ []) :
    ∃ o inner c, tokenize ('(' :: Text.join ", " parts ++ [')']) = o :: (inner ++ [c]) ∧
      o.isOpen = true ∧ c.isClose = true ∧ (∀ t ∈ inner, t.isOpen = false ∧ t.isClose = false) ∧
      (∀ g ∈ splitGroups [','] inner, IsItem g) ∧
      (splitGroups [','] inner).map (List.map Token.word) = tss.map (List.map Token.word) := by
  have hbare := bare_tokenize_tuple h hne
  have hitems := isItem_tupleGroups h
  have hsplit := splitGroups_joinClauses fun g hg => ⟨(hitems g hg).whole, (hitems g hg).ne_nil⟩
  have hshapes : shapes (tupleTokens tss) =
      Token.mark '(' :: (bare (joinClauses (tupleGroups tss)) ++ [Token.mark ')']) := by
    show Token.mark '(' :: bare (joinClauses (tupleGroups tss) ++ [Token.mark ')']) = _
    rw [bare_append]
    rfl
  rw [hshapes] at hbare
  obtain ⟨o, rest, htokens, ho, hrest⟩ := List.map_eq_cons_iff.1 hbare
  obtain ⟨inner, closing, rfl, hinner, hclosing⟩ := List.map_eq_append_iff.1 hrest
  obtain ⟨c, behind, rfl, hc, hbehind⟩ := List.map_eq_cons_iff.1 hclosing
  cases List.map_eq_nil_iff.1 hbehind
  have hgroups : (splitGroups [','] inner).map bare = (tupleGroups tss).map bare := by
    rw [← splitGroups_bare, show bare inner = _ from hinner, splitGroups_bare, hsplit]
  refine ⟨o, inner, c, htokens, ?_, ?_, fun t ht => ?_, fun g hg => ?_, ?_⟩
  · rw [← Token.isOpen_shape, ho]
    decide
  · rw [← Token.isClose_shape, hc]
    decide
  · have hin : t.shape ∈ bare (joinClauses (tupleGroups tss)) := by
      rw [← hinner]
      exact List.mem_map_of_mem ht
    obtain ⟨u, hu, hshape⟩ := List.mem_map.1 hin
    rw [← Token.isOpen_shape, ← Token.isClose_shape, ← hshape]
    rcases mem_joinClauses hu with rfl | ⟨g, hg, hin⟩
    · decide
    · exact not_paren ((hitems g hg).kinds u hin)
  · have hin : bare g ∈ (tupleGroups tss).map bare := by
      rw [← hgroups]
      exact List.mem_map_of_mem hg
    obtain ⟨g₀, hg₀, hsame⟩ := List.mem_map.1 hin
    exact (hitems g₀ hg₀).of_bare hsame.symm
  · have hwords : ∀ gs : List (List Token),
        (gs.map bare).map (List.map Token.word) = gs.map (List.map Token.word) := by
      intro gs
      rw [List.map_map]
      exact List.map_congr_left fun g _ => map_word_bare g
    rw [← hwords, hgroups, hwords, map_word_tupleGroups]

/-! ## Rows -/

theorem forall₂_of_mem {α β : Type} {R S : α → β → Prop} {as : List α} {bs : List β}
    (h : List.Forall₂ R as bs) (hS : ∀ b ∈ bs, ∀ a, R a b → S a b) : List.Forall₂ S as bs := by
  induction h with
  | nil => exact .nil
  | cons hab hrest ih =>
    exact .cons (hS _ List.mem_cons_self _ hab) (ih fun b hb => hS b (List.mem_cons_of_mem _ hb))

/-- The literal, with the kinds and values of its tokens, is that of the column in
the dialect. -/
def IsColumn (types : Row) (d : Dialect) (column : Text × Value) (literal : Text)
    (words : List (TokenKind × Text)) : Prop :=
  ∃ native, column.2.toNative (columnType types column.1) (.text d.name) = .ok native ∧
    native.dialectLiteral d = .ok literal ∧ native.Told d literal words

/-- The literals of a row have spellings, one for each column in order. -/
theorem exists_spellings {types row : Row} {d : Dialect} {parts : List Text}
    (h : rowLiterals types d row = .ok parts) :
    ∃ tss, List.Forall₂ Spelling parts tss ∧
      List.Forall₂ (fun column ts => IsColumn types d column (ts.flatMap Token.value) (ts.map Token.word))
        row tss := by
  fun_induction rowLiterals types d row generalizing parts with
  | case1 =>
    cases h
    exact ⟨[], .nil, .nil⟩
  | case2 => cases h
  | case3 => cases h
  | case4 => cases h
  | case5 column v row native hnative part hpart parts' hrest ih =>
    cases h
    obtain ⟨tss, hspell, hcolumns⟩ := ih hrest
    obtain ⟨ts, hts, htold⟩ := Value.exists_spelling hpart
    refine ⟨ts :: tss, .cons hts hspell, .cons ⟨native, hnative, ?_⟩ hcolumns⟩
    rw [hts.text]
    exact ⟨hpart, htold⟩

theorem insertTuple_parts {row types : Row} {dialect : Value} {text : Text}
    (h : insertTuple row types dialect = .ok (some text)) :
    ∃ d parts, Dialect.ofValue dialect = .ok d ∧ rowLiterals types d row = .ok parts ∧ parts ≠ [] ∧
      text = '(' :: Text.join ", " parts ++ [')'] := by
  unfold insertTuple at h
  split at h
  · cases h
  · rename_i d hd
    split at h
    · cases h
    · cases h
    · rename_i parts hne hparts
      cases h
      exact ⟨d, parts, hd, hparts, hne, rfl⟩

theorem IsItem.groupText {text : Text} {group : List Token} (h : IsItem group)
    (hin : group <:+: tokenize text) :
    TableDialects.groupText text group = (group.map Token.word).flatMap Prod.snd := by
  cases group with
  | nil => exact absurd rfl h.ne_nil
  | cons t ts =>
    rw [groupText_eq_flatMap hin h.tail, List.flatMap_map]
    rfl

/-- The tuple of a row is its columns, one group of tokens for each in order,
between two parentheses. Each group is the literal of its column and tells the
value. -/
theorem insertTuple_confines {row types : Row} {dialect : Value} {text : Text}
    (h : insertTuple row types dialect = .ok (some text)) :
    ∃ d o inner c, Dialect.ofValue dialect = .ok d ∧
      tokenize text = o :: (inner ++ [c]) ∧ o.isOpen = true ∧ c.isClose = true ∧
      (∀ t ∈ inner, t.isOpen = false ∧ t.isClose = false) ∧
      List.Forall₂ (fun column group => group ≠ [] ∧
        IsColumn types d column (groupText text group) (group.map Token.word)) row (splitGroups [','] inner) := by
  obtain ⟨d, parts, hd, hparts, hne, htext⟩ := insertTuple_parts h
  obtain ⟨tss, hspell, hcolumns⟩ := exists_spellings hparts
  obtain ⟨o, inner, c, htokens, ho, hc, hinner, hitems, hwords⟩ := tokenize_tuple hspell hne
  rw [← htext] at htokens
  refine ⟨d, o, inner, c, hd, htokens, ho, hc, hinner, ?_⟩
  -- A column sees of its tokens only their kinds and values, and these are the same in the spellings
  -- and in the groups.
  have hseen : List.Forall₂ (fun column words => IsColumn types d column (words.flatMap Prod.snd) words)
      row ((splitGroups [','] inner).map (List.map Token.word)) := by
    rw [hwords, List.forall₂_map_right_iff]
    refine hcolumns.imp fun column ts hcolumn => ?_
    rwa [List.flatMap_map]
  rw [List.forall₂_map_right_iff] at hseen
  refine forall₂_of_mem hseen fun group hgroup column hcolumn => ⟨(hitems group hgroup).ne_nil, ?_⟩
  have hin : group <:+: tokenize text := by
    rw [htokens]
    exact (mem_splitGroups hgroup).2.trans (List.infix_cons (List.infix_append' [] inner [c]))
  rw [(hitems group hgroup).groupText hin]
  exact hcolumn

/-- Quotes, parentheses, commas and comments inside values stay in their literals. -/
theorem insertTuple_confines_marks :
    let row : Row := [("a".toList, .text "x'), --(".toList), ("b".toList, .text "'/*".toList),
      ("c".toList, .text "[1, \"'\"]".toList), ("d".toList, .int (-5))]
    let types : Row := [("b".toList, .text "blob".toList), ("c".toList, .text "json".toList),
      ("d".toList, .text "int".toList)]
    let text := "('x''), --(', X'272f2a', '[1,\"''\"]', -5)".toList
    insertTuple row types (.text "mysql".toList) = .ok (some text) ∧
      ∃ d o inner c, Dialect.ofValue (.text "mysql".toList) = .ok d ∧
        tokenize text = o :: (inner ++ [c]) ∧ o.isOpen = true ∧ c.isClose = true ∧
        (∀ t ∈ inner, t.isOpen = false ∧ t.isClose = false) ∧
        List.Forall₂ (fun column group => group ≠ [] ∧
          IsColumn types d column (groupText text group) (group.map Token.word)) row (splitGroups [','] inner) := by
  intro row types text
  have hrun : (insertTuple row types (.text "mysql".toList)).toOption = some (some text) := by
    decide +kernel
  cases h : insertTuple row types (.text "mysql".toList) with
  | error e =>
    rw [h] at hrun
    cases hrun
  | ok result =>
    rw [h] at hrun
    cases hrun
    exact ⟨rfl, insertTuple_confines h⟩

end TableDialects
