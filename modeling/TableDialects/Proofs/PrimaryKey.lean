import TableDialects.Proofs.Translate.Key

/- The place of a key over whole runs. A key stands in a clause of its own or inline at
   one column, never in both places: a statement gives it so, and queries keep it so, in
   any order. A key that is there never goes away and covers the same columns from then
   on, only its place may change (`Keeps`). What one query may do is said once
   (`Answers`), and the runs follow from it (`askAll_one_place`). -/
namespace TableDialects.PrimaryKey

def Query.name : Query → Text
  | .isInline name => name
  | .covers name => name
  | .moveInline name => name
  | .promote name => name

/-- The key is not declared in both places. -/
def OnePlace (k : PrimaryKey) : Prop := k.tableColumns = [] ∨ k.inlineColumn = none

/-- A key that is there stays, and covers the same columns. -/
def Keeps (k k' : PrimaryKey) : Prop :=
  k.isPresent = true → k'.isPresent = true ∧ ∀ name, k'.covers name = k.covers name

structure Answers (k : PrimaryKey) (q : Query) (answer : Bool) (k' : PrimaryKey) : Prop where
  onePlace : k'.OnePlace
  keeps : Keeps k k'
  /-- Just a table-level key on the one column, letter case apart, moves to it. -/
  moved : ∀ name, q = .moveInline name →
    (answer = true ↔ ∃ column, k.tableColumns = [column] ∧ Text.lower column = Text.lower name)
  /-- Just a table without a key gets one. -/
  promoted : ∀ name, q = .promote name → (answer = true ↔ k.isPresent = false)
  /-- A key that moves or is given is inline at the column. -/
  placed : ∀ name, q = .moveInline name ∨ q = .promote name → answer = true → k'.isInline name = true
  /-- What is refused changes nothing. -/
  refused : answer = false → k' = k

variable {k : PrimaryKey} {name : Text}

/-! ## One query -/

theorem Keeps.refl (k : PrimaryKey) : Keeps k k := fun h => ⟨h, fun _ => rfl⟩

theorem Keeps.trans {k k' k'' : PrimaryKey} (h : Keeps k k') (h' : Keeps k' k'') : Keeps k k'' := by
  intro hpresent
  obtain ⟨hpresent', hcovers⟩ := h hpresent
  obtain ⟨hpresent'', hcovers'⟩ := h' hpresent'
  exact ⟨hpresent'', fun name => (hcovers' name).trans (hcovers name)⟩

theorem onePlace_of_placed {s : Statement} {columns : Option (List Text)} (h : Placed s columns k) : k.OnePlace := by
  cases h with
  | table hne => exact .inr rfl
  | inline hc hsame => exact .inl rfl
  | absent => exact .inl rfl

theorem onePlace_ofStatement {s : Statement} (h : (ofStatement s).outcome = .ok k) : k.OnePlace := by
  obtain ⟨key, hkey, hplaced⟩ := placed_ofStatement s
  rw [hkey] at h
  cases h
  exact onePlace_of_placed hplaced

theorem sameNames_single_iff {columns : List Text} :
    sameNames columns [name] = true ↔ ∃ column, columns = [column] ∧ Text.lower column = Text.lower name := by
  rw [sameNames_single, List.map_eq_singleton_iff]

theorem moveInline_fst (k : PrimaryKey) (name : Text) : (k.moveInline name).1 = sameNames k.tableColumns [name] := by
  unfold moveInline
  cases sameNames k.tableColumns [name] <;> rfl

theorem promote_fst (k : PrimaryKey) (name : Text) : (k.promote name).1 = !k.isPresent := by
  unfold promote
  cases k.isPresent <;> rfl

theorem moveInline_false (h : (k.moveInline name).1 = false) : (k.moveInline name).2 = k := by
  unfold moveInline at h ⊢
  split at h
  · cases h
  · rw [if_neg ‹_›]

theorem moveInline_true (h : (k.moveInline name).1 = true) :
    (k.moveInline name).2 = { inlineColumn := some name } := by
  unfold moveInline at h ⊢
  split at h
  · rw [if_pos ‹_›]
  · cases h

theorem promote_false (h : (k.promote name).1 = false) : (k.promote name).2 = k := by
  unfold promote at h ⊢
  split at h
  · rw [if_pos ‹_›]
  · cases h

theorem keeps_moveInline (hk : k.OnePlace) (hname : name ≠ []) : Keeps k (k.moveInline name).2 := by
  cases hmove : (k.moveInline name).1 with
  | false =>
    rw [moveInline_false hmove]
    exact Keeps.refl k
  | true =>
    rw [moveInline_true hmove]
    rw [moveInline_fst, sameNames_single_iff] at hmove
    obtain ⟨column, hcolumns, hlower⟩ := hmove
    have hinline : k.inlineColumn = none := by
      rcases hk with hnil | hnone
      · rw [hcolumns] at hnil
        cases hnil
      · exact hnone
    intro _
    refine ⟨?_, ?_⟩
    · cases name with
      | nil => exact absurd rfl hname
      | cons c name => rfl
    · intro n
      calc covers { inlineColumn := some name } n
          = (Text.sameName name n || false) := rfl
        _ = Text.sameName n name := by rw [Bool.or_false, sameName_comm]
        _ = Text.sameName n column := by rw [Text.sameName, Text.sameName, hlower]
        _ = k.covers n := by
            rw [covers, isInline, hinline, hcolumns, Option.any_none, Bool.false_or, List.any_cons, List.any_nil,
              Bool.or_false]

theorem keeps_promote (k : PrimaryKey) (name : Text) : Keeps k (k.promote name).2 := by
  intro hpresent
  have hrefused : (k.promote name).1 = false := by rw [promote_fst, hpresent]; rfl
  rw [promote_false hrefused]
  exact Keeps.refl k hpresent

theorem onePlace_moveInline (hk : k.OnePlace) (name : Text) : (k.moveInline name).2.OnePlace := by
  unfold moveInline
  split
  · exact .inl rfl
  · exact hk

theorem onePlace_promote (hk : k.OnePlace) (name : Text) : (k.promote name).2.OnePlace := by
  unfold promote
  split
  · exact hk
  · rename_i hpresent
    rw [isPresent, Bool.or_eq_true, not_or, Bool.not_eq_true', Bool.not_eq_false, List.isEmpty_iff] at hpresent
    exact .inl hpresent.1

theorem onePlace_ask (hk : k.OnePlace) (q : Query) : (k.ask q).2.OnePlace := by
  cases q with
  | isInline name => exact hk
  | covers name => exact hk
  | moveInline name => exact onePlace_moveInline hk name
  | promote name => exact onePlace_promote hk name

theorem keeps_ask (hk : k.OnePlace) {q : Query} (hq : q.name ≠ []) : Keeps k (k.ask q).2 := by
  cases q with
  | isInline name => exact Keeps.refl k
  | covers name => exact Keeps.refl k
  | moveInline name => exact keeps_moveInline hk hq
  | promote name => exact keeps_promote k name

theorem ask_false {q : Query} (h : (k.ask q).1 = false) : (k.ask q).2 = k := by
  cases q with
  | isInline name => rfl
  | covers name => rfl
  | moveInline name => exact moveInline_false h
  | promote name => exact promote_false h

theorem ask_answers (hk : k.OnePlace) {q : Query} (hq : q.name ≠ []) : Answers k q (k.ask q).1 (k.ask q).2 where
  onePlace := onePlace_ask hk q
  keeps := keeps_ask hk hq
  moved := by
    rintro name rfl
    rw [ask, moveInline_fst, sameNames_single_iff]
  promoted := by
    rintro name rfl
    rw [ask, promote_fst, Bool.not_eq_true']
  placed := by
    rintro name (rfl | rfl) htrue
    · exact isInline_moveInline htrue
    · exact isInline_promote htrue
  refused := ask_false

/-! ## Queries in turn -/

def after (k : PrimaryKey) (qs : List Query) : PrimaryKey := qs.foldl (fun k q => (k.ask q).2) k

/-- Each query is answered from the key that those before it left. -/
theorem getElem?_askAll (k : PrimaryKey) (before : List Query) (q : Query) (behind : List Query) :
    (k.askAll (before ++ q :: behind))[before.length]? = some ((k.after before).ask q) := by
  induction before generalizing k with
  | nil => rfl
  | cons first before ih => exact ih (k.ask first).2

theorem onePlace_after (hk : k.OnePlace) {qs : List Query} (hqs : ∀ q ∈ qs, q.name ≠ []) :
    (k.after qs).OnePlace := by
  induction qs generalizing k with
  | nil => exact hk
  | cons q qs ih =>
    rw [List.forall_mem_cons] at hqs
    exact ih (ask_answers hk hqs.1).onePlace hqs.2

/-- The keys of a run stand in one place each, and each keeps those before it. -/
theorem askAll_keys (hk : k.OnePlace) {qs : List Query} (hqs : ∀ q ∈ qs, q.name ≠ []) :
    (∀ key ∈ k :: (k.askAll qs).map Prod.snd, key.OnePlace) ∧
      (k :: (k.askAll qs).map Prod.snd).Pairwise Keeps := by
  induction qs generalizing k with
  | nil => exact ⟨List.forall_mem_singleton.2 hk, List.pairwise_singleton _ _⟩
  | cons q qs ih =>
    rw [List.forall_mem_cons] at hqs
    have hanswers := ask_answers hk hqs.1
    obtain ⟨hplaces, hpairwise⟩ := ih hanswers.onePlace hqs.2
    have hkeys : (k.askAll (q :: qs)).map Prod.snd = (k.ask q).2 :: ((k.ask q).2.askAll qs).map Prod.snd := rfl
    rw [hkeys]
    refine ⟨List.forall_mem_cons.2 ⟨hk, hplaces⟩, List.pairwise_cons.2 ⟨?_, hpairwise⟩⟩
    intro key hkey
    rcases List.mem_cons.1 hkey with rfl | hlater
    · exact hanswers.keeps
    · exact hanswers.keeps.trans (List.rel_of_pairwise_cons hpairwise hlater)

/-- Queries in turn leave the key of a statement, or any that stands in one place, in one
place, and what is a key once is one from then on, for the same columns; and whatever was
asked before, each query does no more than it may. -/
theorem askAll_one_place (k : PrimaryKey) (before : List Query) (q : Query) (behind : List Query)
    (hk : (∃ s, (ofStatement s).outcome = .ok k) ∨ k.OnePlace)
    (hnames : ∀ asked ∈ before ++ q :: behind, asked.name ≠ []) :
    let run := k.askAll (before ++ q :: behind)
    let k' := k.after before
    (∀ key ∈ k :: run.map Prod.snd, key.OnePlace) ∧ (k :: run.map Prod.snd).Pairwise Keeps ∧
      run[before.length]? = some (k'.ask q) ∧ Answers k' q (k'.ask q).1 (k'.ask q).2 := by
  intro run k'
  have hstart : k.OnePlace := by
    rcases hk with ⟨s, hs⟩ | hplace
    · exact onePlace_ofStatement hs
    · exact hplace
  obtain ⟨hplaces, hpairwise⟩ := askAll_keys hstart hnames
  rw [List.forall_mem_append, List.forall_mem_cons] at hnames
  exact ⟨hplaces, hpairwise, getElem?_askAll k before q behind,
    ask_answers (onePlace_after hstart hnames.1) hnames.2.1⟩

/-- A table-level key that refuses another column, moves to its own and stays there. -/
theorem askAll_one_place_moved :
    let s : Statement :=
      ⟨⟨none, ['t']⟩, false, false, [{ name := ['a'] }, { name := ['b'] }], [.primaryKey (some ['k']) [['A']]], []⟩
    let k : PrimaryKey := ⟨[['A']], some ['k'], none⟩
    let run := k.askAll ([.promote ['b']] ++ .moveInline ['a'] :: [.covers ['A']])
    let k' := k.after [.promote ['b']]
    (ofStatement s).outcome = .ok k ∧
      (∀ asked ∈ [.promote ['b']] ++ .moveInline ['a'] :: [.covers ['A']], Query.name asked ≠ []) ∧
      (∀ key ∈ k :: run.map Prod.snd, key.OnePlace) ∧ (k :: run.map Prod.snd).Pairwise Keeps ∧
      run[1]? = some (k'.ask (.moveInline ['a'])) ∧
      Answers k' (.moveInline ['a']) (k'.ask (.moveInline ['a'])).1 (k'.ask (.moveInline ['a'])).2 := by
  intro s k run k'
  have hs : (ofStatement s).outcome = .ok k := rfl
  have hnames : ∀ asked ∈ [.promote ['b']] ++ .moveInline ['a'] :: [.covers ['A']], Query.name asked ≠ [] := by
    decide
  exact ⟨hs, hnames, askAll_one_place k [.promote ['b']] (.moveInline ['a']) [.covers ['A']] (.inl ⟨s, hs⟩) hnames⟩

end TableDialects.PrimaryKey
