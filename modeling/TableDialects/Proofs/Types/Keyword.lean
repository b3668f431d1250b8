import TableDialects.Proofs.Types.Split
import TableDialects.Translate.Column

/- The keywords of the type tables. Each of them is a written type
   (`ofKeyword_sound`), and where a keyword takes over the parameters of the type it
   stands for, the two agree on whether a length of the type can be too long to be
   read as a number (`LengthKind`). The facts about the tables are checked entry by
   entry, once (`isTypeKeyword_of_mem`, `isTypeEntry_of_mem`). -/
namespace TableDialects

/-! ## Lengths -/

/-- What becomes of a length that is too long to be read as a number: `varying`
types are those whose length SQL Server limits, `fixed` types are those that
SQLite makes varying. -/
inductive LengthKind where
  | free
  | fixed
  | varying
  deriving DecidableEq, Repr

namespace LengthKind

def ofBase (base : Text) : LengthKind :=
  if ["char", "nchar", "character"].any fun n => n.toList == base then .fixed
  else if ["varchar", "nvarchar", "character varying"].any fun n => n.toList == base then .varying
  else .free

/-- Whether the parameters are one length, with more digits than a number may have. -/
def isOverlong (params : Text) : Bool := !params.contains ',' && Numeral.digitLimit + 2 < params.length

def ofType (base params : Text) : LengthKind := if isOverlong params then ofBase base else .free

def carried (target : Dialect) (k : LengthKind) : LengthKind :=
  if target == .sqlite && k == .fixed then .varying else k

end LengthKind

/-! ## Keywords -/

namespace Params

def ofText : Text → Params
  | '(' :: s =>
    match s.dropWhile Text.isDigit with
    | [')'] => .length (s.takeWhile Text.isDigit)
    | ',' :: t => .precision (s.takeWhile Text.isDigit) (t.takeWhile Text.isDigit)
    | _ => .word s.dropLast
  | _ => .absent

end Params

namespace TypeForm

def kind (f : TypeForm) : LengthKind := LengthKind.ofType f.base.toList f.params.text

def ofKeyword (k : Text) : TypeForm :=
  ⟨String.ofList (Text.lower (k.takeWhile (· != '('))), Params.ofText (k.dropWhile (· != '(')), false⟩

/-- A written type that has a sign and does not count up by itself. -/
structure IsPlain (f : TypeForm) : Prop where
  sound : f.IsSound
  signed : f.unsigned = false
  still : f.base ∉ Column.serialTypes

/-- The names of types that are varying and have no limit, or are limited and not
varying. -/
def strays : List String := ["varbinary", "character varying"]

/-- A plain type of a kind; `stray` follows if it is a stray with an overlong length. -/
structure IsKind (f : TypeForm) (kind : LengthKind) (stray : Prop) : Prop extends f.IsPlain where
  kind : f.kind = kind
  stray : LengthKind.isOverlong f.params.text = true → f.base ∈ strays → stray

end TypeForm

/-- The keywords of the type tables, without those of types that count up. -/
def typeKeywords : List String := [
  "TEXT", "INTEGER", "REAL", "TIME", "BLOB", "NVARCHAR", "BIGINT", "TIMESTAMP", "DATETIME", "BYTEA",
  "SMALLINT", "INT", "NVARCHAR(MAX)", "FLOAT", "BIT", "VARBINARY(MAX)", "DOUBLE", "DATE", "BOOLEAN",
  "TIMESTAMP WITHOUT TIME ZONE", "TIMESTAMP WITH TIME ZONE", "DATETIME2", "TINYINT(1)", "CHAR",
  "VARCHAR", "LONGBLOB", "DOUBLE PRECISION", "CHARACTER", "CHARACTER VARYING", "NCHAR",
  "NVARCHAR(255)", "DATETIMEOFFSET", "TINYINT", "DECIMAL", "NUMERIC", "LONGTEXT", "JSON", "CHAR(36)",
  "BINARY", "MONEY", "JSONB", "UUID", "XML", "UNIQUEIDENTIFIER", "MEDIUMINT", "DECIMAL(19,4)",
  "DECIMAL(10,4)", "TINYTEXT", "MEDIUMTEXT", "VARBINARY", "TINYBLOB", "MEDIUMBLOB", "YEAR", "ENUM",
  "SET", "NUMERIC(10,4)", "CITEXT", "TIME WITH TIME ZONE", "TIME WITHOUT TIME ZONE", "DECIMAL(18,2)",
  "NUMERIC(18,2)", "SMALLMONEY", "VARBINARY(255)", "SMALLDATETIME"]

def takesAll (keyword : Text) : Bool :=
  !keyword.contains '(' && Text.hasPart "CHAR" (Text.upper keyword)

/-- Whether the keyword takes over numbers as parameters. -/
def takesNumbers (keyword : Text) : Bool :=
  if keyword.contains '(' then hasDefaultPrecision (Text.upper keyword)
  else ["DECIMAL", "NUMERIC", "BINARY", "VARBINARY"].any fun w => Text.upper keyword == w.toList

namespace LengthKind

/-- The kind of a name that is `varying` or `fixed` if it is in one of the lists. -/
def ofName (fixed varying : List String) (name : String) : LengthKind :=
  if fixed.contains name then .fixed else if varying.contains name then .varying else .free

/-- The kind of a keyword that takes over any parameters. -/
def ofKeyword : String → LengthKind :=
  ofName ["CHAR", "CHARACTER", "NCHAR"] ["VARCHAR", "CHARACTER VARYING", "NVARCHAR"]

end LengthKind

def strayKeywords : List String := ["VARBINARY", "CHARACTER VARYING"]

/-- Whether a keyword writes a type, and a type of its own kind with parameters
that it takes over. -/
def isTypeKeyword (k : String) : Bool :=
  let f := TypeForm.ofKeyword k.toList
  let taken := !takesAll k.toList && !takesNumbers k.toList
  f.text == k.toList && coreTypes.contains f.base && f.params.isSound && !Column.serialTypes.contains f.base
    && (f.base != "boolean" || (f.params == .absent && taken))
    && f.params.text.length < 10
    && (takesAll k.toList || LengthKind.ofKeyword k == .free)
    && (taken || (LengthKind.ofBase f.base.toList == LengthKind.ofKeyword k
      && k.toList.takeWhile (· != '(') == Text.upper f.base.toList
      && (!TypeForm.strays.contains f.base || strayKeywords.contains k)))

theorem isTypeKeyword_of_mem : ∀ k ∈ typeKeywords, isTypeKeyword k = true := by
  unfold isTypeKeyword TypeForm.text TypeForm.ofKeyword
  simp only [String.toList_ofList]
  rw [coreTypes_eq, Text.toList_eq_ofBytes]
  decide +kernel

/-- Whether the entry of a type table is one of a type that counts up, or a
keyword of the same kind as the name. -/
def isTypeEntry (target : Dialect) (name keyword : String) : Bool :=
  (target != .mysql && Column.serialTypes.contains name)
    || (typeKeywords.contains keyword && LengthKind.ofKeyword keyword ==
        (LengthKind.ofName ["char", "nchar", "character"] ["varchar", "nvarchar", "character varying"]
          name).carried target
      && (target != .sqlserver || !strayKeywords.contains keyword))

theorem isTypeEntry_of_mem : ∀ target ∈ Dialect.all, ∀ e ∈ target.profile.types,
    isTypeEntry target e.1 e.2 = true := by decide +kernel

theorem LengthKind.ofBase_toList (b : String) : LengthKind.ofBase b.toList =
    LengthKind.ofName ["char", "nchar", "character"] ["varchar", "nvarchar", "character varying"] b := by
  have hbeq : ∀ n : String, (n.toList == b.toList) = (b == n) := fun n => by
    rw [Bool.eq_iff_iff, beq_iff_eq, beq_iff_eq, String.toList_inj, eq_comm]
  unfold LengthKind.ofBase LengthKind.ofName
  simp only [List.any_cons, List.any_nil, hbeq]
  rfl

theorem LengthKind.isOverlong_of_length {params : Text} (h : params.length < 10) :
    LengthKind.isOverlong params = false := by
  unfold LengthKind.isOverlong
  rw [show decide (Numeral.digitLimit + 2 < params.length) = false from
    decide_eq_false (by unfold Numeral.digitLimit; omega), Bool.and_false]

theorem LengthKind.ofType_of_length {p : Text} (h : p.length < 10) (base : Text) :
    LengthKind.ofType base p = .free := by
  rw [LengthKind.ofType, LengthKind.isOverlong_of_length h]
  rfl

theorem ofKeyword_sound {k : String} (hk : k ∈ typeKeywords) :
    (TypeForm.ofKeyword k.toList).text = k.toList ∧ (TypeForm.ofKeyword k.toList).IsPlain ∧
      (TypeForm.ofKeyword k.toList).params.text.length < 10 := by
  have h := isTypeKeyword_of_mem k hk
  simp only [isTypeKeyword, Bool.and_eq_true, beq_iff_eq, Bool.not_eq_true',
    Bool.or_eq_true, bne_iff_ne, decide_eq_true_eq, List.contains_eq_mem, decide_eq_false_iff_not] at h
  obtain ⟨⟨⟨⟨⟨⟨⟨htext, hcore⟩, hparams⟩, hstill⟩, hbool⟩, hlength⟩, -⟩, -⟩ := h
  refine ⟨htext, ⟨⟨hcore, hparams, fun hb => ?_⟩, rfl, hstill⟩, hlength⟩
  exact (hbool.resolve_left fun hne => hne hb).1

/-- What a keyword of the tables writes with parameters that it takes over. -/
theorem ofKeyword_taken {k : String} (hk : k ∈ typeKeywords)
    (htakes : takesAll k.toList = true ∨ takesNumbers k.toList = true) {p : Params}
    (hp : p.isSound = true) :
    ∃ f : TypeForm, k.toList.takeWhile (· != '(') ++ p.text = f.text ∧ f.IsPlain ∧ f.params = p ∧
      LengthKind.ofBase f.base.toList = LengthKind.ofKeyword k ∧
      (f.base ∈ TypeForm.strays → k ∈ strayKeywords) := by
  have hplain := (ofKeyword_sound hk).2.1
  have h := isTypeKeyword_of_mem k hk
  have htaken : (!takesAll k.toList && !takesNumbers k.toList) = false := by
    rcases htakes with h | h <;> simp [h]
  simp only [isTypeKeyword, htaken, Bool.and_false, Bool.or_false, Bool.false_or, Bool.and_eq_true,
    beq_iff_eq, bne_iff_ne, Bool.or_eq_true, Bool.not_eq_true', List.contains_eq_mem,
    decide_eq_true_eq, decide_eq_false_iff_not] at h
  obtain ⟨⟨⟨⟨-, hbool⟩, -⟩, -⟩, ⟨hkind, hbase⟩, hstray⟩ := h
  refine ⟨⟨(TypeForm.ofKeyword k.toList).base, p, false⟩, ?_, ⟨⟨hplain.sound.base, hp, fun hb => ?_⟩,
    rfl, hplain.still⟩, rfl, hkind, fun hb => hstray.resolve_left fun hne => hne hb⟩
  · rw [hbase, TypeForm.text]
    simp
  · exact absurd hb hbool

theorem ofKeyword_free {k : String} (hk : k ∈ typeKeywords) (h : takesAll k.toList = false) :
    LengthKind.ofKeyword k = .free := by
  have hall := isTypeKeyword_of_mem k hk
  simp only [isTypeKeyword, Bool.and_eq_true, h, Bool.false_or, beq_iff_eq] at hall
  exact hall.1.2

/-- A keyword with the parameters of a type is a written type, of the keyword's
kind if the parameters are an overlong length. -/
theorem withParams_keyword {k : String} (hk : k ∈ typeKeywords) {p : Params} (hp : p.isSound = true) :
    ∃ f : TypeForm, withParams k.toList p.text = f.text ∧
      f.IsKind (if LengthKind.isOverlong p.text then LengthKind.ofKeyword k else .free) (k ∈ strayKeywords) := by
  generalize hkind : (if LengthKind.isOverlong p.text then LengthKind.ofKeyword k else .free) = kind
  have hclosed : kind = .free → ∃ f : TypeForm, k.toList = f.text ∧ f.IsKind kind (k ∈ strayKeywords) := by
    intro hfree
    obtain ⟨htext, hplain, hlength⟩ := ofKeyword_sound hk
    refine ⟨_, htext.symm, ⟨hplain, ?_, fun hover => ?_⟩⟩
    · rw [TypeForm.kind, LengthKind.ofType_of_length hlength, hfree]
    · rw [LengthKind.isOverlong_of_length hlength] at hover
      cases hover
  have htaken : takesAll k.toList = true ∨ takesNumbers k.toList = true →
      ∃ f : TypeForm, k.toList.takeWhile (· != '(') ++ p.text = f.text ∧ f.IsKind kind (k ∈ strayKeywords) := by
    intro htakes
    obtain ⟨f, htext, hplain, hparams, hbase, hstray⟩ := ofKeyword_taken hk htakes hp
    refine ⟨f, htext, ⟨hplain, ?_, fun _ => hstray⟩⟩
    rw [TypeForm.kind, LengthKind.ofType, hparams, hbase, hkind]
  have hfixed : takesAll k.toList = false → kind = .free := by
    intro h
    rw [← hkind, ofKeyword_free hk h, ite_self]
  have hwhole : k.toList.contains '(' = false → k.toList.takeWhile (· != '(') = k.toList := by
    intro hc
    refine List.takeWhile_eq_self_iff.2 fun c hin => ?_
    rw [bne_iff_ne]
    rintro rfl
    rw [List.contains_eq_mem, decide_eq_false_iff_not] at hc
    exact hc hin
  unfold withParams
  by_cases hempty : p.text.isEmpty = true
  · rw [if_pos hempty]
    refine hclosed ?_
    rw [← hkind, List.isEmpty_iff.1 hempty]
    rfl
  rw [if_neg hempty]
  cases hopen : k.toList.contains '(' with
  | true =>
    rw [if_pos rfl]
    split
    · rename_i hnumbers
      rw [Bool.and_eq_true] at hnumbers
      refine htaken (.inr ?_)
      rw [takesNumbers, if_pos hopen]
      exact hnumbers.1
    · refine hclosed (hfixed ?_)
      rw [takesAll, hopen]
      rfl
  | false =>
    rw [if_neg Bool.false_ne_true]
    rw [hwhole hopen] at htaken
    by_cases hchar : Text.hasPart "CHAR" (Text.upper k.toList) = true
    · rw [if_pos hchar]
      refine htaken (.inl ?_)
      rw [takesAll, hopen, hchar]
      rfl
    rw [if_neg hchar]
    split
    · rename_i hnumbers
      rw [Bool.and_eq_true] at hnumbers
      refine htaken (.inr ?_)
      rw [takesNumbers, hopen]
      exact hnumbers.1
    · refine hclosed (hfixed ?_)
      rw [takesAll, hopen, Bool.eq_false_iff.2 hchar]
      rfl

end TableDialects
