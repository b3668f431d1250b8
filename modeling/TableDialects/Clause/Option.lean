import TableDialects.Clause.Constraint

/- The options behind the type of a column. The tail of a column definition is
   read as a list of options; a token that starts none is an option of its own,
   kept as it stands.

   Correspondence (program ↔ model):
     one turn of `_parse_column_options` ↔ `ColumnOption.read`
     `_parse_column_options`             ↔ `ColumnOption.readAll`
     `_parse_generated`                  ↔ `generated`

   The loop of `_parse_column_options` sets the fields of a column as it goes; here
   reading and setting are apart, and `Column.apply` sets what an option says. -/
namespace TableDialects

inductive ColumnOption where
  | notNull
  | null
  | default (expression : List Token)
  | autoIncrement
  | primaryKey
  | unique
  | check (condition : List Token)
  | references (reference : Reference)
  | onUpdate (expression : List Token)
  | comment (text : Text)
  | collate (name : Text)
  /-- An option without meaning elsewhere, left out. -/
  | skipped
  /-- Tokens kept as they stand. -/
  | other (tokens : List Token)
  deriving DecidableEq, Repr

namespace ColumnOption

/-- Takes a group in parentheses if one comes next, and leaves it out. -/
def skipGroup (option : ColumnOption) (ts : List Token) : Reading ColumnOption :=
  if startsOpen ts then (takeGroup ts).mapValue fun _ => option else .ok (option, ts)

def skipToken (ts : List Token) : Reading ColumnOption := (takeToken ts).mapValue fun _ => .skipped

def expression (option : List Token → ColumnOption) (ts : List Token) : Reading ColumnOption :=
  (takeExpression ts).mapValue option

/-- The tokens behind the words that may follow GENERATED. -/
def afterGenerated (ts : List Token) : List Token :=
  (afterWords? ["ALWAYS"] ts).getD ((afterWords? ["BY", "DEFAULT"] ts).getD ts)

/-- An identity, or a computed value of which the tokens of `all` in front of
the rest are kept. -/
def computed (all rest : List Token) : Reading ColumnOption :=
  let kept (rest : List Token) : ColumnOption := .other (all.take (all.length - rest.length))
  match afterWords? ["AS", "IDENTITY"] rest with
  | some rest => skipGroup .autoIncrement rest
  | none => match afterWords? ["AS"] rest with
    | none => .ok (kept rest, rest)
    | some rest =>
      if startsOpen rest then
        match takeGroup rest with
        | .error e => .error e
        | .ok (_, rest) =>
          let rest := if startsWithWordOf ["STORED", "VIRTUAL"] rest then rest.drop 1 else rest
          .ok (kept rest, rest)
      else .ok (kept rest, rest)

/-- Reads what follows GENERATED. `all` are the tokens from GENERATED on. -/
def generated (all rest : List Token) : Reading ColumnOption := computed all (afterGenerated rest)

/-- The tokens behind an inline PRIMARY KEY: a sort order and index options are
left out. -/
def afterInlineKey (ts : List Token) : List Token :=
  skipIndexOptions (if startsWithWordOf ["ASC", "DESC"] ts then ts.drop 1 else ts)

/-- A comment: a string literal, or any other token as it stands. -/
def ofComment (t : Token) : ColumnOption :=
  .comment (if t.kind == .string then stringValue t.value else t.value)

def commentText (ts : List Token) : Reading ColumnOption := (takeToken ts).mapValue ofComment

def collation (ts : List Token) : Reading ColumnOption := (takeToken ts).mapValue fun t => .collate t.value

/-- Reads the name of an inline constraint, which is left out. -/
def constraintName (ts : List Token) : Reading ColumnOption :=
  (takeName "constraint name" ts).mapValue fun _ => .skipped

def referenceTarget (ts : List Token) : Reading ColumnOption := (takeReference ts).mapValue .references

def checkCondition (ts : List Token) : Reading ColumnOption := (takeGroup ts).mapValue .check

/-- The keywords that start an option, in the order in which they are tried,
each with the reader of what follows them. -/
def table : List (List String × (List Token → Reading ColumnOption)) := [
  (["NOT", "NULL"], fun rest => .ok (.notNull, rest)),
  (["NULL"], fun rest => .ok (.null, rest)),
  (["DEFAULT"], expression .default),
  (["AUTO_INCREMENT"], fun rest => .ok (.autoIncrement, rest)),
  (["AUTOINCREMENT"], fun rest => .ok (.autoIncrement, rest)),
  (["IDENTITY"], skipGroup .autoIncrement),
  (["PRIMARY", "KEY"], fun rest => .ok (.primaryKey, afterInlineKey rest)),
  (["UNIQUE"], fun rest => .ok (.unique, (afterWords? ["KEY"] rest).getD rest)),
  (["REFERENCES"], referenceTarget),
  (["ON", "UPDATE"], expression .onUpdate),
  (["ON", "CONFLICT"], skipToken),
  (["COMMENT"], commentText),
  (["COLLATE"], collation),
  (["CHARACTER", "SET"], skipToken),
  (["CHARSET"], skipToken),
  (["CONSTRAINT"], constraintName)]

/-- The reading of the first keywords in the table that the tokens start
with. -/
def byKeyword? : (table : List (List String × (List Token → Reading ColumnOption))) →
    List Token → Option (Reading ColumnOption)
  | [], _ => none
  | (words, reader) :: table, ts =>
    match afterWords? words ts with
    | some rest => some (reader rest)
    | none => byKeyword? table ts

/-- Reads one option from tokens that start with `t`. -/
def read (t : Token) (rest : List Token) : Reading ColumnOption :=
  if t.isWord "GENERATED" then generated (t :: rest) rest
  else match afterCheck? (t :: rest) with
    | some rest => checkCondition rest
    | none => (byKeyword? table (t :: rest)).getD (.ok (.other [t], rest))

/-! ## Every option consumes a token -/

/-- A reader that leaves an end of the tokens it is given. -/
def Ends {α : Type} (reader : List Token → Reading α) : Prop :=
  ∀ ts rest a, reader ts = .ok (a, rest) → rest <:+ ts

theorem Ends.mapValue {α β : Type} {reader : List Token → Reading α} (h : Ends reader) (f : α → β) :
    Ends fun ts => (reader ts).mapValue f := by
  intro ts rest b hb
  obtain ⟨a, ha, -⟩ := Reading.of_mapValue_ok hb
  exact h ts rest a ha

theorem ends_takeGroup : Ends takeGroup := fun _ _ _ => takeGroup_suffix

theorem ends_skipGroup (option : ColumnOption) : Ends (skipGroup option) := by
  intro ts rest o h
  unfold skipGroup at h
  split at h
  · exact ends_takeGroup.mapValue _ _ _ _ h
  · cases h
    exact List.suffix_refl _

theorem afterWords?_getD_suffix (words : List String) (ts : List Token) :
    (afterWords? words ts).getD ts <:+ ts := by
  cases h : afterWords? words ts with
  | none => exact List.suffix_refl ts
  | some rest => exact afterWords?_suffix h

theorem afterInlineKey_suffix (ts : List Token) : afterInlineKey ts <:+ ts := by
  unfold afterInlineKey skipIndexOptions
  refine (List.dropWhile_suffix _).trans ?_
  split
  · exact List.drop_suffix 1 ts
  · exact List.suffix_refl ts

theorem afterGenerated_suffix (ts : List Token) : afterGenerated ts <:+ ts := by
  unfold afterGenerated
  cases halways : afterWords? ["ALWAYS"] ts with
  | some rest => exact afterWords?_suffix halways
  | none => exact afterWords?_getD_suffix _ ts

theorem ends_computed (all : List Token) : Ends (computed all) := by
  intro ts rest o h
  unfold computed at h
  split at h
  · exact (ends_skipGroup _ _ _ _ h).trans (afterWords?_suffix ‹_›)
  · split at h
    · cases h
      exact List.suffix_refl _
    · rename_i left hwords
      have hleft : left <:+ ts := afterWords?_suffix hwords
      split at h
      · split at h
        · cases h
        · rename_i behind hgroup
          have hbehind : behind <:+ ts := (takeGroup_suffix hgroup).trans hleft
          cases h
          split
          · exact (List.drop_suffix 1 behind).trans hbehind
          · exact hbehind
      · cases h
        exact hleft

theorem generated_suffix {all ts rest : List Token} {o : ColumnOption} (h : generated all ts = .ok (o, rest)) :
    rest <:+ ts := (ends_computed _ _ _ _ h).trans (afterGenerated_suffix ts)

theorem ends_table : ∀ e ∈ table, 0 < e.1.length ∧ Ends e.2 := by
  intro e he
  have hleft : ∀ {option : ColumnOption} {left : List Token → List Token}, (∀ ts, left ts <:+ ts) →
      Ends fun ts => .ok (option, left ts) := by
    intro option left hsuffix ts rest o h
    cases h
    exact hsuffix ts
  have hall : ∀ ts : List Token, ts <:+ ts := List.suffix_refl
  have htoken : Ends takeToken := fun _ _ _ => takeToken_suffix
  have hname : ∀ what, Ends (takeName what) := fun _ _ _ _ => takeName_suffix
  have hreference : Ends takeReference := fun _ _ _ => takeReference_suffix
  have hexpression : Ends takeExpression := fun _ _ _ => takeExpression_suffix
  simp only [table, List.mem_cons, List.not_mem_nil, or_false] at he
  rcases he with rfl | rfl | rfl | rfl | rfl | rfl | rfl | rfl | rfl | rfl | rfl | rfl | rfl | rfl |
    rfl | rfl
  · exact ⟨by simp, hleft hall⟩
  · exact ⟨by simp, hleft hall⟩
  · exact ⟨by simp, hexpression.mapValue _⟩
  · exact ⟨by simp, hleft hall⟩
  · exact ⟨by simp, hleft hall⟩
  · exact ⟨by simp, ends_skipGroup _⟩
  · exact ⟨by simp, hleft afterInlineKey_suffix⟩
  · exact ⟨by simp, hleft (afterWords?_getD_suffix ["KEY"])⟩
  · exact ⟨by simp, hreference.mapValue _⟩
  · exact ⟨by simp, hexpression.mapValue _⟩
  · exact ⟨by simp, htoken.mapValue fun _ => skipped⟩
  · exact ⟨by simp, htoken.mapValue ofComment⟩
  · exact ⟨by simp, htoken.mapValue fun t => collate t.value⟩
  · exact ⟨by simp, htoken.mapValue fun _ => skipped⟩
  · exact ⟨by simp, htoken.mapValue fun _ => skipped⟩
  · exact ⟨by simp, (hname _).mapValue fun _ => skipped⟩

theorem byKeyword?_isBehind {table : List (List String × (List Token → Reading ColumnOption))}
    (ht : ∀ e ∈ table, 0 < e.1.length ∧ Ends e.2) {ts rest : List Token} {o : ColumnOption}
    (h : byKeyword? table ts = some (.ok (o, rest))) : IsBehind rest ts := by
  induction table with
  | nil => cases h
  | cons e table ih =>
    obtain ⟨words, reader⟩ := e
    rw [byKeyword?] at h
    split at h
    · obtain ⟨hpos, hends⟩ := ht _ List.mem_cons_self
      exact (afterWords?_isBehind ‹_› hpos).of_suffix (hends _ _ _ (Option.some.inj h))
    · exact ih (fun e he => ht e (List.mem_cons_of_mem _ he)) h

theorem afterCheck?_isBehind {ts rest : List Token} (h : afterCheck? ts = some rest) : IsBehind rest ts := by
  unfold afterCheck? at h
  split at h
  · split at h
    · cases h
      exact afterWords?_isBehind ‹_› (by simp)
    · cases h
  · cases h

theorem read_isBehind {t : Token} {ts rest : List Token} {o : ColumnOption}
    (h : read t ts = .ok (o, rest)) : IsBehind rest (t :: ts) := by
  have hfirst : IsBehind ts (t :: ts) := ⟨List.suffix_cons t ts, Nat.lt_succ_self _⟩
  unfold read at h
  split at h
  · exact hfirst.of_suffix (generated_suffix h)
  · split at h
    · exact (afterCheck?_isBehind ‹_›).of_suffix (ends_takeGroup.mapValue _ _ _ _ h)
    · cases hfound : byKeyword? table (t :: ts) with
      | none =>
        rw [hfound] at h
        cases h
        exact hfirst
      | some r =>
        rw [hfound, Option.getD_some] at h
        rw [h] at hfound
        exact byKeyword?_isBehind ends_table hfound

def readAll (ts : List Token) : Except Malformed (List ColumnOption) :=
  match ts with
  | [] => .ok []
  | t :: rest =>
    match _ : read t rest with
    | .error e => .error e.cause
    | .ok (o, left) =>
      match readAll left with
      | .error e => .error e
      | .ok os => .ok (o :: os)
termination_by ts.length
decreasing_by exact (read_isBehind ‹_›).2

end ColumnOption
end TableDialects
