import TableDialects.Proofs.Translate.Places

/- What the clause of a column declares in the target, read off the text that is
   emitted. A column is rendered as parts, and most parts are fixed words. Some carry
   text of the statement outside quotes and parentheses: the type, which may be any
   quoted name, the default, the update rule, and the tokens without meaning, whose
   quoted keywords lose their quotes.

   This file

   1. says what it means that a clause declares a key, NULL, a uniqueness or counting
      up (`Declares`): the words stand in the text of a part, outside quotes and
      parentheses, or are those of the key and one part ends in PRIMARY where the
      next one starts with KEY;
   2. gives the parts of a column in order (`Direction.column_shape`);
   3. proves that a column declares what its fixed words say or what the text that is
      passed on says (`Direction.partDeclares_column`). -/
namespace TableDialects

/-! ## Declarations in text -/

/-- What the clause of a column may declare. -/
inductive Declaration where
  | primaryKey
  | null
  | unique
  | counting (target : Dialect)
  deriving DecidableEq

namespace Declaration

/-- The words of a declaration. A column counts up in PostgreSQL by its type, which
has two names for each size. -/
def spellings : Declaration → List (List String)
  | .primaryKey => [["PRIMARY", "KEY"]]
  | .null => [["NULL"]]
  | .unique => [["UNIQUE"]]
  | .counting .mysql => [["AUTO_INCREMENT"], ["AUTOINCREMENT"]]
  | .counting .sqlite => [["AUTO_INCREMENT"], ["AUTOINCREMENT"]]
  | .counting .postgresql => [["SERIAL"], ["BIGSERIAL"], ["SMALLSERIAL"], ["SERIAL4"], ["SERIAL8"],
      ["SERIAL2"], ["IDENTITY"]]
  | .counting .sqlserver => [["IDENTITY"]]

/-- The words that make something else of the declaration behind them: NOT NULL,
DEFAULT NULL, SET NULL and ON UPDATE NULL declare no column NULL. -/
def binders : Declaration → List String
  | .null => ["NOT", "DEFAULT", "SET", "UPDATE"]
  | _ => []

def spelledAt : List String → List Token → Bool
  | [], _ => true
  | _ :: _, [] => false
  | w :: ws, t :: ts => t.isWord w.toList && spelledAt ws ts

/-- Whether the declaration stands among the tokens, the first of which is `bound` by
the token before it. -/
def among (k : Declaration) (bound : Bool) : List Token → Bool
  | [] => false
  | t :: ts =>
    !bound && k.spellings.any (fun ws => spelledAt ws (t :: ts)) || k.among (t.isWordOf k.binders) ts

/-- The tokens outside parentheses, `depth` of which are open. -/
def outside (depth : Nat) : List Token → List Token
  | [] => []
  | t :: ts =>
    let rest := outside (if t.isOpen then depth + 1 else if t.isClose then depth - 1 else depth) ts
    if depth = 0 then t :: rest else rest

end Declaration

/-- Whether what a part takes from the statement is in quotes or in parentheses. -/
def ColumnPart.isSilent : ColumnPart → Bool
  | .name _ => true
  | .check _ => true
  | .references _ => true
  | .comment _ => true
  | _ => false

/-- The tokens of a part that may declare something. -/
def ColumnPart.tokens (p : ColumnPart) : List Token :=
  if p.isSilent then [] else Declaration.outside 0 (tokenize p.render)

def ColumnPart.declares (k : Declaration) (p : ColumnPart) : Bool := k.among false p.tokens

/-- Whether a part ends in PRIMARY and the next one starts with KEY. -/
def splitsKey : List ColumnPart → Bool
  | [] => false
  | p :: ps =>
    (p.tokens.getLast?.any fun t => t.isWord "PRIMARY")
        && (ps.head?.any fun q => q.tokens.head?.any fun t => t.isWord "KEY")
      || splitsKey ps

/-- Whether one of the parts declares it. -/
def PartDeclares (k : Declaration) (parts : List ColumnPart) : Prop := parts.any (ColumnPart.declares k) = true

/-- Whether the clause of a column declares it. -/
def Declares (k : Declaration) (parts : List ColumnPart) : Prop :=
  PartDeclares k parts ∨ k = .primaryKey ∧ splitsKey parts = true

instance (k : Declaration) (parts : List ColumnPart) : Decidable (PartDeclares k parts) :=
  inferInstanceAs (Decidable (_ = true))

instance (k : Declaration) (parts : List ColumnPart) : Decidable (Declares k parts) :=
  inferInstanceAs (Decidable (_ ∨ _ ∧ _))

section PartDeclares
variable {k : Declaration} {p : ColumnPart} {ps qs : List ColumnPart}

theorem partDeclares_append : PartDeclares k (ps ++ qs) ↔ PartDeclares k ps ∨ PartDeclares k qs := by
  unfold PartDeclares
  rw [List.any_append, Bool.or_eq_true]

theorem partDeclares_cons : PartDeclares k (p :: ps) ↔ p.declares k = true ∨ PartDeclares k ps := by
  unfold PartDeclares
  rw [List.any_cons, Bool.or_eq_true]

theorem not_partDeclares_nil : ¬ PartDeclares k [] := Bool.false_ne_true

theorem partDeclares_singleton : PartDeclares k [p] ↔ p.declares k = true := by
  rw [partDeclares_cons, or_iff_left not_partDeclares_nil]

theorem partDeclares_ite {b : Bool} :
    PartDeclares k (if b then [p] else []) ↔ b = true ∧ p.declares k = true := by
  cases b with
  | true => rw [if_pos rfl, partDeclares_singleton, eq_self, true_and]
  | false => simp [PartDeclares]

theorem not_declares_of_isSilent (h : p.isSilent = true) : ¬ p.declares k = true := by
  rw [ColumnPart.declares, ColumnPart.tokens, if_pos h]
  exact Bool.false_ne_true

theorem not_partDeclares_of_isSilent (h : ∀ p ∈ ps, p.isSilent = true) : ¬ PartDeclares k ps := by
  unfold PartDeclares
  rw [List.any_eq_true]
  rintro ⟨p, hp, hdeclares⟩
  exact not_declares_of_isSilent (h p hp) hdeclares

end PartDeclares

/-- The fixed words of a column declare one thing each, and NOT NULL nothing. -/
theorem ColumnPart.declares_fixed : ∀ p ∈ [ColumnPart.notNull, .null, .primaryKey, .unique],
    p.declares .primaryKey = (p == .primaryKey) ∧ p.declares .null = (p == .null) ∧
      p.declares .unique = (p == .unique) ∧ ∀ d, p.declares (.counting d) = false := by
  have hcounting : ∀ p ∈ [ColumnPart.notNull, .null, .primaryKey, .unique], ∀ d ∈ Dialect.all,
      p.declares (.counting d) = false := by decide +kernel
  have hword : ∀ p ∈ [ColumnPart.notNull, .null, .primaryKey, .unique],
      p.declares .primaryKey = (p == .primaryKey) ∧ p.declares .null = (p == .null) ∧
        p.declares .unique = (p == .unique) := by decide +kernel
  intro p hp
  obtain ⟨hkey, hnull, hunique⟩ := hword p hp
  exact ⟨hkey, hnull, hunique, fun d => hcounting p hp d (by cases d <;> decide)⟩

/-! ## The parts of a column -/

namespace Traced

/-- What the operation results in satisfies `P`. -/
def Ensures {α : Type} (P : α → Prop) (x : Traced α) : Prop := ∀ a, x.outcome = .ok a → P a

theorem Ensures.pure {α : Type} {P : α → Prop} {a : α} (h : P a) : Ensures P (pure a) := by
  intro b hb
  cases hb
  exact h

theorem Ensures.bind {α β : Type} {P : β → Prop} {x : Traced α} {f : α → Traced β}
    (h : ∀ a, Ensures P (f a)) : Ensures P (x >>= f) := by
  intro b hb
  obtain ⟨a, -, hb⟩ := outcome_bind_ok hb
  exact h a b hb

end Traced

namespace Direction
variable {d : Direction} {key : PrimaryKey} {counts : Bool} {c : Column} {parts : List ColumnPart}

/-- The tokens without casts, where the target has none. -/
def castless (d : Direction) (ts : List Token) : List Token :=
  if d.target.profile.casts then ts else Expression.stripCasts ts

/-- The tokens as the target spells them. -/
def spell (d : Direction) (ts : List Token) : Text :=
  renderTokensWith (Expression.respell d.source d.target) (d.castless ts)

theorem spell_nil : d.spell [] = [] := by
  unfold spell castless
  rw [Expression.stripCasts, ite_self]
  rfl

theorem outcome_render (ts : List Token) : (Expression.render d.source d.target ts).outcome = .ok (d.spell ts) := by
  unfold Expression.render spell castless
  cases d.target.profile.casts with
  | true => rfl
  | false =>
    rw [if_neg Bool.false_ne_true, if_neg Bool.false_ne_true]
    dsimp only
    rw [Traced.outcome_bind, Traced.outcome_recordIf]
    rfl

/-- The text of the tokens without meaning. -/
def extraText (d : Direction) (c : Column) : Text := Cleanup.unquoteKeywords d.target (d.spell c.extra)

theorem outcome_extraPart (c : Column) :
    (d.extraPart c).outcome = .ok (if !c.extra.isEmpty then [.extra (d.extraText c)] else []) := by
  unfold extraPart
  cases c.extra.isEmpty with
  | true => rfl
  | false =>
    rw [if_neg Bool.false_ne_true, Traced.outcome_bind, outcome_render]
    rfl

/-- The text of the update rule, where the target has one. -/
def updateText? (d : Direction) (c : Column) : Option Text :=
  (c.onUpdate.filter fun ts => !ts.isEmpty && d.target.profile.onUpdate).map d.spell

theorem outcome_onUpdatePart (c : Column) :
    (d.onUpdatePart c).outcome = .ok ((d.updateText? c).map ColumnPart.onUpdate).toList := by
  unfold onUpdatePart updateText?
  cases c.onUpdate with
  | none => rfl
  | some ts =>
    cases ts with
    | nil => rfl
    | cons t ts =>
      cases hd : d.target.profile.onUpdate with
      | true =>
        dsimp only
        rw [if_pos rfl, Traced.outcome_bind, outcome_render]
        rfl
      | false => rfl

/-- The check, the reference and the comment of a column take nothing from the
statement but in quotes or in parentheses. -/
theorem ensures_silent (c : Column) :
    ∀ x ∈ [d.checkPart c, d.referencePart c, d.commentPart c],
      x.Ensures fun ps => ∀ p ∈ ps, p.isSilent = true := by
  have hnone : Traced.Ensures (fun ps : List ColumnPart => ∀ p ∈ ps, p.isSilent = true) (pure []) :=
    .pure (List.forall_mem_nil _)
  have hone : ∀ p : ColumnPart, p.isSilent = true →
      Traced.Ensures (fun ps => ∀ p ∈ ps, p.isSilent = true) (pure [p]) :=
    fun p hp => .pure (List.forall_mem_singleton.2 hp)
  simp only [List.forall_mem_cons, List.not_mem_nil, false_imp_iff, implies_true, and_true]
  refine ⟨?_, ?_, ?_⟩
  · unfold checkPart
    split
    · exact hnone
    · exact hnone
    · exact .bind fun _ => hone _ rfl
  · unfold referencePart
    split
    · exact hnone
    · exact .bind fun _ => hone _ rfl
  · unfold commentPart
    split
    · exact hnone
    · split
      · exact hone _ rfl
      · exact .bind fun _ => hnone

/-- The type that a column is written with: as the one that counts up, or its own. -/
def WritesType (d : Direction) (counts : Bool) (c : Column) (type : Text) : Prop :=
  if counts then (d.countingType c).outcome = .ok type else (d.columnType? c).outcome = .ok (some type)

theorem WritesType.unique {type type' : Text} (h : d.WritesType counts c type)
    (h' : d.WritesType counts c type') : type = type' := by
  unfold WritesType at h h'
  cases counts with
  | true => exact Except.ok.inj (h.symm.trans h')
  | false => exact Option.some.inj (Except.ok.inj (h.symm.trans h'))

/-- The default that is written: none for the column that counts up and for one that
draws from a sequence. -/
def writtenDefault? (d : Direction) (counts : Bool) (c : Column) : Traced (Option Text) :=
  if counts || c.drawsNext then pure none else d.default? c

/-- The fixed words of a column before its default and behind it. -/
inductive Words (d : Direction) (c : Column) (inlineKey : Bool) (default : Option Text) :
    Bool → List ColumnPart → List ColumnPart → Prop
  | counting : Words d c inlineKey default true [] (d.countingParts c inlineKey)
  | plain {nulls : List ColumnPart} (hnulls : (nullability c inlineKey default).outcome = .ok nulls) :
    Words d c inlineKey default false nulls (if inlineKey then [.primaryKey] else [])

/-- What a column passes on from the statement outside quotes and parentheses. -/
inductive PassedOn (d : Direction) (counts : Bool) (c : Column) : ColumnPart → Prop
  | type {text : Text} (h : d.WritesType counts c text) : PassedOn d counts c (.type text)
  | default {text : Text} (h : (d.writtenDefault? counts c).outcome = .ok (some text)) :
    PassedOn d counts c (.default text)
  | onUpdate {text : Text} (h : d.updateText? c = some text) : PassedOn d counts c (.onUpdate text)
  | extra (h : c.extra.isEmpty = false) : PassedOn d counts c (.extra (d.extraText c))

theorem plainParts_cases {inlineKey : Bool} {type : Option Text} {own : List ColumnPart}
    (h : (d.plainParts c inlineKey).outcome = .ok (type, own)) :
    (d.columnType? c).outcome = .ok type ∧
      ∃ default front back, (d.writtenDefault? false c).outcome = .ok default ∧
        d.Words c inlineKey default false front back ∧
        own = front ++ (default.map ColumnPart.default).toList ++ back := by
  have hparts : d.plainParts c inlineKey = do
      let type ← d.columnType? c
      let default ← d.writtenDefault? false c
      let nulls ← nullability c inlineKey default
      return (type, nulls ++ (default.map ColumnPart.default).toList
        ++ if inlineKey then [.primaryKey] else []) := by
    unfold plainParts writtenDefault?
    cases c.drawsNext <;> rfl
  rw [hparts] at h
  obtain ⟨type', htype, h⟩ := Traced.outcome_bind_ok h
  obtain ⟨default, hdefault, h⟩ := Traced.outcome_bind_ok h
  obtain ⟨nulls, hnulls, h⟩ := Traced.outcome_bind_ok h
  cases h
  exact ⟨htype, default, nulls, _, hdefault, .plain hnulls, rfl⟩

/-- Behind the type and its own parts, a column that counts up and one that does not
go on in the same way. -/
theorem partsBehind_shape (type : Option Text) {own : List ColumnPart} (h : (do
      let check ← d.checkPart c
      let reference ← d.referencePart c
      let onUpdate ← d.onUpdatePart c
      let comment ← d.commentPart c
      Traced.recordIf (c.collation.any fun s => !s.isEmpty) .collateRemoved
      let extra ← d.extraPart c
      match type with
      | none => Traced.fail (.fault .wrongKind)
      | some type =>
        return [ColumnPart.name (d.target.quote c.name), .type type] ++ own
          ++ (if c.unique && !key.isInline c.name then [ColumnPart.unique] else []) ++ check
          ++ reference ++ onUpdate ++ comment ++ extra : Traced (List ColumnPart)).outcome = .ok parts) :
    ∃ t before behind, type = some t ∧ (∀ p ∈ before, p.isSilent = true) ∧ (∀ p ∈ behind, p.isSilent = true) ∧
      parts = [.name (d.target.quote c.name), .type t] ++ own ++
        (if c.unique && !key.isInline c.name then [.unique] else []) ++ before ++
        ((d.updateText? c).map ColumnPart.onUpdate).toList ++ behind ++
        if !c.extra.isEmpty then [.extra (d.extraText c)] else [] := by
  have hsilent := d.ensures_silent c
  simp only [List.forall_mem_cons, List.not_mem_nil, false_imp_iff, implies_true, and_true] at hsilent
  obtain ⟨hcheck, hreference, hcomment⟩ := hsilent
  obtain ⟨check, hc, h⟩ := Traced.outcome_bind_ok h
  obtain ⟨reference, hr, h⟩ := Traced.outcome_bind_ok h
  obtain ⟨onUpdate, hu, h⟩ := Traced.outcome_bind_ok h
  obtain ⟨comment, hm, h⟩ := Traced.outcome_bind_ok h
  obtain ⟨-, -, h⟩ := Traced.outcome_bind_ok h
  obtain ⟨extra, hextra, h⟩ := Traced.outcome_bind_ok h
  cases (outcome_onUpdatePart c).symm.trans hu
  cases (outcome_extraPart c).symm.trans hextra
  cases type with
  | none => cases h
  | some t =>
    cases h
    refine ⟨t, check ++ reference, comment, rfl, ?_, hcomment comment hm, by simp only [List.append_assoc]⟩
    exact List.forall_mem_append.2 ⟨hcheck check hc, hreference reference hr⟩

/-- The parts of a column: its name, its type, its default between fixed words, UNIQUE
unless the key says so, the update rule between silent parts, and the tokens without
meaning. -/
theorem column_shape (h : (d.column key counts c).outcome = .ok parts) :
    ∃ type default front back before behind, d.WritesType counts c type ∧
      (d.writtenDefault? counts c).outcome = .ok default ∧
      d.Words c (key.isInline c.name) default counts front back ∧
      (∀ p ∈ before, p.isSilent = true) ∧ (∀ p ∈ behind, p.isSilent = true) ∧
      parts = [.name (d.target.quote c.name), .type type] ++
        (front ++ (default.map ColumnPart.default).toList ++ back) ++
        (if c.unique && !key.isInline c.name then [.unique] else []) ++ before ++
        ((d.updateText? c).map ColumnPart.onUpdate).toList ++ behind ++
        if !c.extra.isEmpty then [.extra (d.extraText c)] else [] := by
  unfold column at h
  dsimp only at h
  cases counts with
  | true =>
    rw [if_pos rfl] at h
    obtain ⟨type, htype, h⟩ := Traced.outcome_bind_ok h
    obtain ⟨p, hp, h⟩ := Traced.outcome_bind_ok h
    cases hp
    obtain ⟨t, before, behind, ht, hbefore, hbehind, hparts⟩ := partsBehind_shape (some type) h
    cases ht
    exact ⟨type, none, [], _, before, behind, htype, rfl, .counting, hbefore, hbehind, hparts⟩
  | false =>
    rw [if_neg Bool.false_ne_true] at h
    obtain ⟨⟨type, own⟩, hplain, h⟩ := Traced.outcome_bind_ok h
    obtain ⟨htype, default, front, back, hdefault, hwords, rfl⟩ := plainParts_cases hplain
    obtain ⟨t, before, behind, rfl, hbefore, hbehind, hparts⟩ := partsBehind_shape type h
    exact ⟨t, default, front, back, before, behind, htype, hdefault, hwords, hbefore, hbehind, hparts⟩

/-- The text that a column passes on, as the parts that it is written with. -/
theorem passedOn_iff {type : Text} {default : Option Text} (htype : d.WritesType counts c type)
    (hdefault : (d.writtenDefault? counts c).outcome = .ok default) (p : ColumnPart) :
    d.PassedOn counts c p ↔ p ∈ .type type :: ((default.map ColumnPart.default).toList ++
      ((d.updateText? c).map ColumnPart.onUpdate).toList ++
      if !c.extra.isEmpty then [.extra (d.extraText c)] else []) := by
  constructor
  · rintro (h | h | h | h)
    · cases h.unique htype
      exact List.mem_cons_self
    · cases hdefault.symm.trans h
      simp
    · simp [h]
    · simp [h]
  · simp only [List.mem_cons, List.mem_append, Option.mem_toList, Option.map_eq_some_iff,
      List.mem_ite_nil_right, List.not_mem_nil, or_false, Bool.not_eq_true']
    rintro (rfl | (⟨text, rfl, rfl⟩ | ⟨text, h, rfl⟩) | ⟨h, rfl⟩)
    · exact .type htype
    · exact .default hdefault
    · exact .onUpdate h
    · exact .extra h

/-- The text that is passed on declares it, or meets in the words of the key when the
column is rendered without one. -/
def Passes (d : Direction) (k : Declaration) (counts : Bool) (c : Column) : Prop :=
  (∃ p, d.PassedOn counts c p ∧ p.declares k = true) ∨
    k = .primaryKey ∧ ∃ parts, (d.column {} counts c).outcome = .ok parts ∧ splitsKey parts = true

/-- A column declares what its fixed words declare, a uniqueness that it has, and what
is passed on in the text of the statement. -/
theorem partDeclares_column (h : (d.column key counts c).outcome = .ok parts) (k : Declaration) :
    ∃ default front back, (d.writtenDefault? counts c).outcome = .ok default ∧
      d.Words c (key.isInline c.name) default counts front back ∧
      (PartDeclares k parts ↔ PartDeclares k (front ++ back) ∨
        (c.unique = true ∧ key.isInline c.name = false ∧ ColumnPart.unique.declares k = true) ∨
          ∃ p, d.PassedOn counts c p ∧ p.declares k = true) := by
  obtain ⟨type, default, front, back, before, behind, htype, hdefault, hwords, hbefore, hbehind, rfl⟩ :=
    column_shape h
  have hname : ¬ (ColumnPart.name (d.target.quote c.name)).declares k = true := not_declares_of_isSilent rfl
  have hunique : PartDeclares k (if c.unique && !key.isInline c.name then [.unique] else []) ↔
      c.unique = true ∧ key.isInline c.name = false ∧ ColumnPart.unique.declares k = true := by
    rw [partDeclares_ite, Bool.and_eq_true, Bool.not_eq_true', and_assoc]
  have hpassed : (∃ p, d.PassedOn counts c p ∧ p.declares k = true) ↔
      (ColumnPart.type type).declares k = true ∨ PartDeclares k (default.map ColumnPart.default).toList ∨
        PartDeclares k ((d.updateText? c).map ColumnPart.onUpdate).toList ∨
          PartDeclares k (if !c.extra.isEmpty then [.extra (d.extraText c)] else []) := by
    simp only [passedOn_iff htype hdefault]
    rw [← List.any_eq_true]
    show PartDeclares k _ ↔ _
    rw [partDeclares_cons, partDeclares_append, partDeclares_append, or_assoc]
  refine ⟨default, front, back, hdefault, hwords, ?_⟩
  rw [hpassed, ← hunique]
  simp only [partDeclares_append, partDeclares_cons, hname, not_partDeclares_nil,
    not_partDeclares_of_isSilent hbefore, not_partDeclares_of_isSilent hbehind, or_false, Bool.false_eq_true,
    false_or]
  grind

/-! ## What goes with the type -/

theorem nullability_cases {inlineKey : Bool} {default : Option Text} {nulls : List ColumnPart}
    (h : (nullability c inlineKey default).outcome = .ok nulls) :
    nulls = [.notNull] ∨ nulls = [.null] ∨ nulls = [] := by
  unfold nullability at h
  split at h
  · cases h; exact .inl rfl
  · split at h
    · cases h; exact .inl rfl
    · split at h
      · cases h; exact .inr (.inl rfl)
      · cases h; exact .inr (.inr rfl)

/-- The column that counts up says so behind its type, except in PostgreSQL, and has the
key where it is inline; in SQLite it always has. -/
theorem declares_countingParts (c : Column) (inlineKey : Bool) :
    (PartDeclares .primaryKey (d.countingParts c inlineKey) ↔ inlineKey = true ∨ d.target = .sqlite) ∧
      ¬ PartDeclares .null (d.countingParts c inlineKey) ∧ ¬ PartDeclares .unique (d.countingParts c inlineKey) ∧
      (PartDeclares (.counting d.target) (d.countingParts c inlineKey) ↔ d.target ≠ .postgresql) := by
  unfold countingParts
  cases c.notNull == some true <;> cases inlineKey <;> cases d.target <;> decide +kernel

/-- In PostgreSQL the type of the column that counts up says so. -/
theorem declares_countingType (hd : d.target = .postgresql) {type : Text}
    (h : (d.countingType c).outcome = .ok type) :
    (ColumnPart.type type).declares (.counting .postgresql) = true := by
  have hserial : ∀ t ∈ ["SMALLSERIAL", "BIGSERIAL", "SERIAL"],
      (ColumnPart.type t.toList).declares (.counting .postgresql) = true := by decide +kernel
  unfold countingType at h
  rw [hd, show Dialect.postgresql.profile.autoIncrement = .serial from rfl] at h
  obtain ⟨-, -, h⟩ := Traced.outcome_bind_ok h
  cases h
  cases c.hasBase ["smallserial"] with
  | true => exact hserial "SMALLSERIAL" (by simp)
  | false =>
    cases c.isLarge with
    | true => exact hserial "BIGSERIAL" (by simp)
    | false => exact hserial "SERIAL" (by simp)

section Words
variable {inlineKey : Bool} {default : Option Text} {front back : List ColumnPart}

theorem not_declares_nullability {k : Declaration} (hk : ∀ p ∈ [ColumnPart.notNull, .null], p.declares k = false)
    {nulls : List ColumnPart} (h : (nullability c inlineKey default).outcome = .ok nulls) :
    ¬ PartDeclares k nulls := by
  have hone : ∀ p ∈ [ColumnPart.notNull, .null], ¬ PartDeclares k [p] := by
    intro p hp
    rw [partDeclares_singleton, hk p hp]
    exact Bool.false_ne_true
  rcases nullability_cases h with rfl | rfl | rfl
  · exact hone _ (by simp)
  · exact hone _ (by simp)
  · exact not_partDeclares_nil

/-- Of the words of a column that does not count up, only the key declares more than
its nullability. -/
theorem Words.plain_iff {k : Declaration} (h : d.Words c inlineKey default false front back)
    (hk : ∀ p ∈ [ColumnPart.notNull, .null], p.declares k = false) :
    PartDeclares k (front ++ back) ↔ inlineKey = true ∧ ColumnPart.primaryKey.declares k = true := by
  cases h with
  | plain hnulls =>
    rw [partDeclares_append, or_iff_right (not_declares_nullability hk hnulls), partDeclares_ite]

theorem Words.primaryKey_iff (h : d.Words c inlineKey default counts front back)
    (hrowid : counts = true → d.target = .sqlite → inlineKey = true) :
    PartDeclares .primaryKey (front ++ back) ↔ inlineKey = true := by
  cases counts with
  | true =>
    cases h
    rw [List.nil_append, (declares_countingParts c inlineKey).1, or_iff_left_of_imp (hrowid rfl)]
  | false =>
    have hfixed := fun p hp => (ColumnPart.declares_fixed p hp).1
    rw [h.plain_iff (by simp [hfixed]), hfixed _ (by simp)]
    simp

theorem Words.not_unique (h : d.Words c inlineKey default counts front back) :
    ¬ PartDeclares .unique (front ++ back) := by
  cases counts with
  | true =>
    cases h
    exact (declares_countingParts c inlineKey).2.2.1
  | false =>
    have hfixed := fun p hp => (ColumnPart.declares_fixed p hp).2.2.1
    rw [h.plain_iff (by simp [hfixed]), hfixed _ (by simp)]
    simp

theorem Words.counting_iff (h : d.Words c inlineKey default counts front back) :
    PartDeclares (.counting d.target) (front ++ back) ↔ counts = true ∧ d.target ≠ .postgresql := by
  cases counts with
  | true =>
    cases h
    rw [List.nil_append, (declares_countingParts c inlineKey).2.2.2, eq_self, true_and]
  | false =>
    have hfixed := fun p hp => (ColumnPart.declares_fixed p hp).2.2.2 d.target
    rw [h.plain_iff (by simp [hfixed]), hfixed _ (by simp)]
    simp

theorem Words.no_type (h : d.Words c inlineKey default counts front back) (type : Text) :
    .type type ∉ front ∧ .type type ∉ back := by
  cases h with
  | counting =>
    unfold countingParts
    cases d.target.profile.autoIncrement with
    | serial => cases inlineKey <;> cases c.notNull == some true <;> simp
    | _ => cases inlineKey <;> simp
  | plain hnulls =>
    rcases nullability_cases hnulls with rfl | rfl | rfl <;> cases inlineKey <;> simp

end Words

/-! ## What a column declares -/

section Column
variable (h : (d.column key counts c).outcome = .ok parts)
include h

theorem type_mem_column (type : Text) : .type type ∈ parts ↔ d.WritesType counts c type := by
  obtain ⟨t, default, front, back, before, behind, ht, -, hwords, hbefore, hbehind, rfl⟩ := column_shape h
  have hsilent : ∀ ps : List ColumnPart, (∀ p ∈ ps, p.isSilent = true) → .type type ∉ ps := by
    intro ps hps hin
    cases hps _ hin
  have hone : type = t ↔ d.WritesType counts c type := ⟨fun heq => heq ▸ ht, fun htype => htype.unique ht⟩
  rw [← hone]
  simp only [List.mem_append, List.mem_cons, List.not_mem_nil, List.mem_ite_nil_right, Option.mem_toList,
    Option.map_eq_some_iff, ColumnPart.type.injEq, reduceCtorEq, and_false, exists_false, or_false, false_or,
    hwords.no_type type, hsilent before hbefore, hsilent behind hbehind]

/-- The key matters to a column only where it is inline there. -/
theorem column_without_key (hinline : key.isInline c.name = false) :
    (d.column {} counts c).outcome = .ok parts := by
  have hnone : ({} : PrimaryKey).isInline c.name = false := rfl
  unfold column at h ⊢
  rw [hinline] at h
  rw [hnone]
  exact h

/-- A column declares the key if it is inline there, or in the text that is passed on. -/
theorem primaryKey_column (hrowid : counts = true → d.target = .sqlite → key.isInline c.name = true) :
    Declares .primaryKey parts ↔ key.isInline c.name = true ∨ d.Passes .primaryKey counts c := by
  obtain ⟨default, front, back, -, hwords, hparts⟩ := partDeclares_column h .primaryKey
  rw [Declares, hparts, hwords.primaryKey_iff hrowid, (ColumnPart.declares_fixed .unique (by simp)).1, Passes]
  cases hinline : key.isInline c.name with
  | true => simp
  | false =>
    have hkeyless := column_without_key h hinline
    simp [hkeyless]

/-- A column is declared unique if it is so in the statement and no inline key, or in
the text that is passed on. -/
theorem unique_column : Declares .unique parts ↔
    c.unique = true ∧ key.isInline c.name = false ∨ d.Passes .unique counts c := by
  obtain ⟨default, front, back, -, hwords, hparts⟩ := partDeclares_column h .unique
  rw [Declares, hparts, or_iff_right hwords.not_unique, (ColumnPart.declares_fixed .unique (by simp)).2.2.1, Passes]
  simp

/-- A column counts up if it is the one chosen to, or in the text that is passed on. -/
theorem counting_column : Declares (.counting d.target) parts ↔
    counts = true ∨ d.Passes (.counting d.target) counts c := by
  obtain ⟨default, front, back, -, hwords, hparts⟩ := partDeclares_column h (.counting d.target)
  rw [Declares, hparts, hwords.counting_iff, (ColumnPart.declares_fixed .unique (by simp)).2.2.2, Passes]
  simp only [Bool.false_eq_true, and_false, false_or, reduceCtorEq, false_and, or_false]
  constructor
  · exact fun hin => hin.imp_left And.left
  · rintro (rfl | hpasses)
    · by_cases hd : d.target = .postgresql
      · obtain ⟨type, -, -, -, -, -, htype, -⟩ := column_shape h
        rw [hd]
        exact .inr ⟨.type type, .type htype, declares_countingType hd htype⟩
      · exact .inl ⟨rfl, hd⟩
    · exact .inr hpasses

end Column

end Direction
end TableDialects
