import TableDialects.Proofs.Translate.Default
import TableDialects.Proofs.Translate.Key
import TableDialects.Proofs.Translate.Type

/- Columns in another dialect. A column of a common type whose default is a single
   value is written in the same form (`Direction.outcome_column`), and what is read
   from that form is such a column again (`ColumnForm.IsSound.isCore`): with the
   same name, the key and the counting up where they were put. -/
namespace TableDialects

/-! ## Common columns -/

/-- The column has a plain name, a common type and at most a default that is one
token of the kind given; key, nullability, uniqueness and counting up are
free. -/
structure Column.IsCore (value : Token → Prop) (c : Column) : Prop where
  name : isPlainName c.name = true
  type : ∃ b p, c.HasType b p
  scalar : c.isArray = false
  default : ∀ ts ∈ c.default, ∃ t, ts = [t] ∧ value t
  check : c.check = none
  reference : c.reference = none
  onUpdate : c.onUpdate = none
  comment : c.comment = none
  collation : c.collation = none
  extra : c.extra = []

namespace Column

variable {c : Column}

theorem IsCore.mono {p q : Token → Prop} (h : c.IsCore p)
    (hpq : ∀ ts ∈ c.default, ∀ t ∈ ts, p t → q t) : c.IsCore q := by
  refine { h with default := fun ts hts => ?_ }
  obtain ⟨t, rfl, ht⟩ := h.default ts hts
  exact ⟨t, rfl, hpq [t] hts t List.mem_cons_self ht⟩

theorem baseType_apply (c : Column) (o : ColumnOption) : (c.apply o).baseType = c.baseType := by
  cases o <;> rfl

theorem typeParams_apply (c : Column) (o : ColumnOption) : (c.apply o).typeParams = c.typeParams := by
  cases o <;> rfl

/-- An option that every dialect writes leaves a common column common. -/
theorem IsCore.apply {o : ColumnOption} (h : c.IsCore Token.IsValue) (ho : o.IsPlain) :
    (c.apply o).IsCore Token.IsValue := by
  have htype : ∃ b p, (c.apply o).HasType b p := by
    obtain ⟨b, p, hb⟩ := h.type
    exact ⟨b, p, hb.core, hb.params, (baseType_apply c o).trans hb.base_eq,
      (typeParams_apply c o).trans hb.params_eq⟩
  obtain ⟨hname, -, hscalar, hdefault, hcheck, hreference, hupdate, hcomment, hcollation, hextra⟩ := h
  cases o with
  | default ts =>
    obtain ⟨t, rfl, ht, -⟩ := ho
    have hvalue : ∀ us ∈ some [t], ∃ u, us = [u] ∧ u.IsValue := fun us hus =>
      ⟨t, (Option.some.inj hus).symm, ht⟩
    exact ⟨hname, htype, hscalar, hvalue, hcheck, hreference, hupdate, hcomment, hcollation, hextra⟩
  | notNull => exact ⟨hname, htype, hscalar, hdefault, hcheck, hreference, hupdate, hcomment, hcollation, hextra⟩
  | null => exact ⟨hname, htype, hscalar, hdefault, hcheck, hreference, hupdate, hcomment, hcollation, hextra⟩
  | autoIncrement =>
    exact ⟨hname, htype, hscalar, hdefault, hcheck, hreference, hupdate, hcomment, hcollation, hextra⟩
  | primaryKey =>
    exact ⟨hname, htype, hscalar, hdefault, hcheck, hreference, hupdate, hcomment, hcollation, hextra⟩
  | unique => exact ⟨hname, htype, hscalar, hdefault, hcheck, hreference, hupdate, hcomment, hcollation, hextra⟩
  | _ => exact ho.elim

end Column

/-! ## What a written column is read as -/

namespace ColumnForm

variable {f : ColumnForm}

theorem foldl_apply {os : List ColumnOption} (h : ∀ o ∈ os, o.IsPlain) {c : Column}
    (hc : c.IsCore Token.IsValue) : (os.foldl Column.apply c).IsCore Token.IsValue := by
  induction os generalizing c with
  | nil => exact hc
  | cons o os ih =>
    exact ih (fun p hp => h p (List.mem_cons_of_mem o hp)) (hc.apply (h o List.mem_cons_self))

/-- A flag of a column that exactly one option sets is set if that option is
there. -/
theorem foldl_flag (flag : Column → Bool) {sets : ColumnOption}
    (h : ∀ c o, flag (c.apply o) = (flag c || decide (o = sets))) (os : List ColumnOption) (c : Column) :
    flag (os.foldl Column.apply c) = (flag c || decide (sets ∈ os)) := by
  induction os generalizing c with
  | nil => simp
  | cons o os ih =>
    rw [List.foldl_cons, ih, h]
    simp [Bool.or_assoc, eq_comm]

theorem foldl_field {α : Type} {field : Column → α} (h : ∀ c o, field (c.apply o) = field c)
    (os : List ColumnOption) (c : Column) : field (os.foldl Column.apply c) = field c := by
  induction os generalizing c with
  | nil => rfl
  | cons o os ih => rw [List.foldl_cons, ih, h]

theorem name_column (f : ColumnForm) : f.column.name = f.name :=
  foldl_field (fun c o => by cases o <;> rfl) f.options _

theorem baseType_column (f : ColumnForm) : f.column.baseType = f.type.base.toList :=
  foldl_field Column.baseType_apply f.options _

theorem typeParams_column (f : ColumnForm) : f.column.typeParams = f.type.params.text :=
  foldl_field Column.typeParams_apply f.options _

theorem primaryKey_column (f : ColumnForm) : f.column.primaryKey = decide (.primaryKey ∈ f.options) :=
  foldl_flag Column.primaryKey (fun c o => by cases o <;> simp [Column.apply]) f.options _

theorem autoIncrement_column (f : ColumnForm) :
    f.column.autoIncrement = decide (.autoIncrement ∈ f.options) :=
  foldl_flag Column.autoIncrement (fun c o => by cases o <;> simp [Column.apply]) f.options _

theorem lengthKind_column (f : ColumnForm) : f.column.lengthKind = f.type.kind := by
  rw [Column.lengthKind, baseType_column, typeParams_column]
  rfl

theorem hasType_column (h : f.IsSound) : f.column.HasType f.type.base f.type.params :=
  ⟨h.type.base, h.type.params, f.baseType_column, f.typeParams_column⟩

theorem IsSound.isCore (h : f.IsSound) : f.column.IsCore Token.IsValue := by
  refine foldl_apply h.options ⟨h.name, ⟨f.type.base, f.type.params, h.type.base, h.type.params, rfl, rfl⟩,
    rfl, fun _ hts => (nomatch hts), rfl, rfl, rfl, rfl, rfl, rfl⟩

end ColumnForm

theorem Column.IsCore.drawsNext {c : Column} (h : c.IsCore Token.IsValue) : c.drawsNext = false := by
  unfold Column.drawsNext
  cases hc : c.default with
  | none => rfl
  | some ts =>
    obtain ⟨t, rfl, ht⟩ := h.default ts hc
    have hword : t.isWord "NEXTVAL" = false := by
      obtain ⟨kind, value, start, spaced⟩ := t
      cases kind with
      | word => rcases ht with ht | ht <;> cases ht <;> rfl
      | number => rfl
      | string => rfl
      | _ => cases ht
    rw [Option.any_some, List.any_cons, hword]
    rfl

/-- A written column counts up if its type or an option says so. -/
theorem ColumnForm.IsSound.countsUp {f : ColumnForm} (h : f.IsSound) :
    f.column.countsUp = true ↔ .autoIncrement ∈ f.options ∨ f.type.base ∈ Column.serialTypes := by
  unfold Column.countsUp
  rw [h.isCore.drawsNext, (hasType_column h).hasBase, autoIncrement_column]
  simp

/-! ## What a column is written as -/

namespace Direction

variable (d : Direction) {c : Column}

/-- What follows the type of the column that counts up, as options. -/
def countingOptions (c : Column) (inlineKey : Bool) : List ColumnOption :=
  let key := if inlineKey then [ColumnOption.primaryKey] else []
  match d.target with
  | .sqlite => [.primaryKey, .autoIncrement]
  | .postgresql => if inlineKey then key else if c.notNull == some true then [.notNull] else []
  | .sqlserver => [.autoIncrement, .notNull] ++ key
  | .mysql => [.notNull, .autoIncrement] ++ key

theorem map_countingOptions (c : Column) (inlineKey : Bool) :
    (d.countingOptions c inlineKey).map (ColumnOption.part d.target) = d.countingParts c inlineKey := by
  unfold countingOptions countingParts
  cases d.target with
  | postgresql =>
    cases inlineKey with
    | true => rfl
    | false => cases h : c.notNull == some true <;> simp [Dialect.profile, ColumnOption.part]
  | _ => cases inlineKey <;> rfl

/-- The column that counts up has the key where it is put, and says that it counts
up unless its type does. -/
theorem countingOptions_spec (c : Column) {inlineKey : Bool} (hrowid : d.target = .sqlite → inlineKey = true) :
    (∀ o ∈ d.countingOptions c inlineKey, o.IsPlain) ∧
      (.primaryKey ∈ d.countingOptions c inlineKey ↔ inlineKey = true) ∧
      (.autoIncrement ∈ d.countingOptions c inlineKey ↔ d.target ≠ .postgresql) := by
  unfold countingOptions
  cases htarget : d.target with
  | sqlite => simp [hrowid htarget, ColumnOption.IsPlain]
  | postgresql =>
    cases inlineKey with
    | true => simp [ColumnOption.IsPlain]
    | false => cases h : c.notNull == some true <;> simp [ColumnOption.IsPlain]
  | mysql => cases inlineKey <;> simp [ColumnOption.IsPlain]
  | sqlserver => cases inlineKey <;> simp [ColumnOption.IsPlain]

theorem outcome_nullability (c : Column) (inlineKey : Bool) (default : Option Text) :
    ∃ os : List ColumnOption, (∀ o ∈ os, o = .notNull ∨ o = .null) ∧
      (nullability c inlineKey default).outcome = .ok (os.map (ColumnOption.part d.target)) := by
  have hone : ∀ o : ColumnOption, o = .notNull ∨ o = .null → ∀ p ∈ [o], p = .notNull ∨ p = .null :=
    fun o ho p hp => List.mem_singleton.1 hp ▸ ho
  unfold nullability
  split
  · exact ⟨[.notNull], hone _ (.inl rfl), rfl⟩
  · split
    · exact ⟨[.notNull], hone _ (.inl rfl), rfl⟩
    · split
      · exact ⟨[.null], hone _ (.inr rfl), rfl⟩
      · exact ⟨[], fun _ ho => (nomatch ho), rfl⟩

theorem outcome_coreDefault (h : c.IsCore Token.IsValue) :
    ∃ os : List ColumnOption, (∀ o ∈ os, o.IsPlain ∧ ∃ ts, o = .default ts) ∧ ∃ text,
      (d.default? c).outcome = .ok text ∧
        (text.map ColumnPart.default).toList = os.map (ColumnOption.part d.target) := by
  cases hc : c.default with
  | none =>
    refine ⟨[], fun _ ho => (nomatch ho), none, ?_, rfl⟩
    rw [default?, hc]
    rfl
  | some ts =>
    obtain ⟨t, rfl, ht⟩ := h.default ts hc
    obtain ⟨u, houtcome, hu, hstart, hspaced⟩ := d.outcome_default? hc ht
    refine ⟨[.default [u]], fun o ho => ?_, some u.value, houtcome, ?_⟩
    · rw [List.mem_singleton.1 ho]
      exact ⟨⟨u, rfl, hu, hstart, hspaced⟩, _, rfl⟩
    · have htext : renderTokens [u] = u.value := List.append_nil _
      show [ColumnPart.default u.value] = [.default (renderTokens [u])]
      rw [htext]

theorem outcome_plainParts (h : c.IsCore Token.IsValue) (inlineKey : Bool) :
    ∃ os : List ColumnOption, (∀ o ∈ os, o.IsPlain) ∧ (.primaryKey ∈ os ↔ inlineKey = true) ∧
      .autoIncrement ∉ os ∧
      (d.plainParts c inlineKey).outcome =
        (d.columnType? c).outcome.map fun type => (type, os.map (ColumnOption.part d.target)) := by
  obtain ⟨defaults, hdefaults, text, htext, hparts⟩ := d.outcome_coreDefault h
  obtain ⟨nulls, hnulls, hnullability⟩ := d.outcome_nullability c inlineKey text
  let key : List ColumnOption := if inlineKey then [.primaryKey] else []
  have hplain : ∀ o ∈ nulls ++ defaults ++ key, o.IsPlain := by
    intro o ho
    rcases List.mem_append.1 ho with ho | ho
    · rcases List.mem_append.1 ho with ho | ho
      · rcases hnulls o ho with rfl | rfl <;> trivial
      · exact (hdefaults o ho).1
    · have hkey : o = .primaryKey := by
        cases inlineKey with
        | true => exact List.mem_singleton.1 ho
        | false => exact absurd ho List.not_mem_nil
      rw [hkey]
      trivial
  have haside : ∀ o ∈ nulls ++ defaults, o ≠ .primaryKey ∧ o ≠ .autoIncrement := by
    intro o ho
    rcases List.mem_append.1 ho with ho | ho
    · rcases hnulls o ho with rfl | rfl <;> exact ⟨nofun, nofun⟩
    · obtain ⟨-, ts, rfl⟩ := hdefaults o ho
      exact ⟨nofun, nofun⟩
  refine ⟨nulls ++ defaults ++ key, hplain, ?_, ?_, ?_⟩
  · rw [List.mem_append, or_iff_right fun hin => (haside _ hin).1 rfl]
    cases inlineKey <;> simp [key]
  · rw [List.mem_append, or_iff_right fun hin => (haside _ hin).2 rfl]
    cases inlineKey <;> simp [key]
  · have hkey : (if inlineKey then [ColumnPart.primaryKey] else []) = key.map (ColumnOption.part d.target) := by
      cases inlineKey <;> rfl
    unfold plainParts
    rw [Traced.outcome_bind, h.drawsNext]
    cases (d.columnType? c).outcome with
    | error e => rfl
    | ok type =>
      show (d.default? c >>= _).outcome = _
      rw [Traced.outcome_bind, htext]
      show (nullability c inlineKey text >>= _).outcome = _
      rw [Traced.outcome_bind, hnullability, hparts, hkey]
      simp only [Except.bind, Except.map, List.map_append, Traced.outcome_pure]

/-- A common column has no part behind its key but the uniqueness. -/
theorem outcome_column_core (h : c.IsCore Token.IsValue) (key : PrimaryKey) (counts : Bool) :
    (d.column key counts c).outcome =
      (if counts then (d.countingType c).outcome.map fun type =>
          (some type, d.countingParts c (key.isInline c.name))
        else (d.plainParts c (key.isInline c.name)).outcome).bind fun written =>
          match written.1 with
          | none => .error (.fault .wrongKind)
          | some type => .ok ([.name (d.target.quote c.name), .type type] ++ written.2 ++
              if c.unique && !key.isInline c.name then [.unique] else []) := by
  have hcheck : (d.checkPart c).outcome = .ok [] := by rw [checkPart, h.check]; rfl
  have hreference : (d.referencePart c).outcome = .ok [] := by rw [referencePart, h.reference]; rfl
  have hupdate : (d.onUpdatePart c).outcome = .ok [] := by rw [onUpdatePart, h.onUpdate]; rfl
  have hcomment : (d.commentPart c).outcome = .ok [] := by rw [commentPart, h.comment]; rfl
  have hextra : (d.extraPart c).outcome = .ok [] := by rw [extraPart, h.extra]; rfl
  unfold column
  dsimp only
  cases counts with
  | true =>
    rw [if_pos rfl, if_pos rfl, Traced.outcome_bind]
    cases (d.countingType c).outcome with
    | error e => rfl
    | ok type =>
      simp only [Traced.outcome_bind, hcheck, hreference, hupdate, hcomment, hextra, Traced.outcome_recordIf,
        Except.bind, Except.map, Traced.outcome_pure]
      simp
  | false =>
    rw [if_neg Bool.false_ne_true, if_neg Bool.false_ne_true, Traced.outcome_bind]
    cases (d.plainParts c (key.isInline c.name)).outcome with
    | error e => rfl
    | ok written =>
      obtain ⟨type, parts⟩ := written
      simp only [Traced.outcome_bind, hcheck, hreference, hupdate, hcomment, hextra, Traced.outcome_recordIf,
        Except.bind]
      cases type with
      | none => rfl
      | some type => simp

/-- The form is how the target writes the column: under its name, with the key and
the counting up where they are put, and with a length of the kind that the target
gives it. -/
structure WritesColumn (c : Column) (inlineKey counts : Bool) (f : ColumnForm) : Prop where
  sound : f.IsSound
  name : f.name = c.name
  key : .primaryKey ∈ f.options ↔ inlineKey = true
  counting : .autoIncrement ∈ f.options ∨ f.type.base ∈ Column.serialTypes ↔ counts = true
  kind : f.type.kind = if counts then .free else c.lengthKind.carried d.target

variable {d}

theorem WritesColumn.widen {inlineKey counts : Bool} {f : ColumnForm} (h : d.WritesColumn c inlineKey counts f) :
    d.WritesColumn c inlineKey counts f.widen := by
  have hmem : ∀ o : ColumnOption, (∀ ts, o ≠ .default ts) → (o ∈ f.widen.options ↔ o ∈ f.options) := by
    intro o ho
    show o ∈ f.options.map ColumnOption.widen ↔ _
    rw [List.mem_map]
    constructor
    · rintro ⟨p, hp, rfl⟩
      cases p with
      | default ts => exact absurd rfl (ho _)
      | _ => exact hp
    · intro hin
      refine ⟨o, hin, ?_⟩
      cases o with
      | default ts => exact absurd rfl (ho ts)
      | _ => rfl
  refine ⟨h.sound.widen, h.name, ?_, ?_, h.kind⟩
  · rw [hmem .primaryKey nofun]
    exact h.key
  · rw [hmem .autoIncrement nofun]
    exact h.counting

/-- Options for the uniqueness of a column say nothing of the key or counting
up. -/
theorem WritesColumn.of_options (h : c.IsCore Token.IsValue) {inlineKey counts : Bool} {type : TypeForm}
    {os : List ColumnOption} (htype : type.IsSound) (hplain : ∀ o ∈ os, o.IsPlain)
    (hkey : .primaryKey ∈ os ↔ inlineKey = true)
    (hcounting : .autoIncrement ∈ os ∨ type.base ∈ Column.serialTypes ↔ counts = true)
    (hkind : type.kind = if counts then .free else c.lengthKind.carried d.target) (unique : Bool) :
    d.WritesColumn c inlineKey counts ⟨c.name, type, os ++ if unique then [.unique] else []⟩ := by
  have hmem : ∀ o : ColumnOption, o ≠ .unique →
      (o ∈ os ++ (if unique then [.unique] else []) ↔ o ∈ os) := by
    intro o ho
    cases unique <;> simp [ho]
  refine ⟨⟨h.name, htype, fun o ho => ?_⟩, rfl, ?_, ?_, hkind⟩
  · by_cases hunique : o = .unique
    · rw [hunique]
      trivial
    · exact hplain o ((hmem o hunique).1 ho)
  · exact (hmem .primaryKey nofun).trans hkey
  · exact (or_congr_left (hmem .autoIncrement nofun)).trans hcounting

/-- A common column is written in the common form; SQL Server refuses one that does
not count up and has a varying length with too many digits. -/
theorem outcome_column (hset : d.settings = .standard) (h : c.IsCore Token.IsValue) (key : PrimaryKey)
    (counts : Bool) (hrowid : counts = true → d.target = .sqlite → key.isInline c.name = true) :
    if d.target = .sqlserver ∧ counts = false ∧ c.lengthKind = .varying then
      (d.column key counts c).outcome = .error (.fault .badNumber)
    else ∃ f, (d.column key counts c).outcome = .ok (f.parts d.target) ∧
      d.WritesColumn c (key.isInline c.name) counts f := by
  obtain ⟨b, p, htype⟩ := h.type
  have hunique : ∀ unique : Bool, (if unique then [ColumnPart.unique] else []) =
      (if unique then [ColumnOption.unique] else []).map (ColumnOption.part d.target) := by
    intro unique
    cases unique <;> rfl
  rw [d.outcome_column_core h, hunique]
  cases counts with
  | true =>
    obtain ⟨f, hf, hsound, hfree, hserial⟩ := countingType_common d htype
    obtain ⟨hplain, hkey, hcounting⟩ := d.countingOptions_spec c (hrowid rfl)
    rw [if_neg (fun hrefused => nomatch hrefused.2.1), if_pos rfl, hf, ← d.map_countingOptions]
    have hcounts : .autoIncrement ∈ d.countingOptions c (key.isInline c.name) ∨ f.base ∈ Column.serialTypes := by
      by_cases htarget : d.target = .postgresql
      · exact .inr (hserial htarget)
      · exact .inl (hcounting.2 htarget)
    have hwrites : d.WritesColumn c (key.isInline c.name) true _ :=
      .of_options h hsound hplain hkey (iff_of_true hcounts rfl) hfree (c.unique && !key.isInline c.name)
    refine ⟨_, ?_, hwrites⟩
    show Except.ok _ = Except.ok _
    simp [ColumnForm.parts]
  | false =>
    obtain ⟨hrefused, htaken⟩ := columnType?_common hset htype h.scalar
    obtain ⟨os, hplain, hkey, hstill, hparts⟩ := d.outcome_plainParts h (key.isInline c.name)
    rw [if_neg Bool.false_ne_true, hparts]
    split
    · rename_i hover
      rw [hrefused hover.1 hover.2.2]
      rfl
    · rename_i hover
      obtain ⟨f, hf, hsound, hbase, hkind⟩ := htaken fun hboth => hover ⟨hboth.1, rfl, hboth.2⟩
      rw [hf]
      have hwrites : d.WritesColumn c (key.isInline c.name) false _ :=
        .of_options h hsound hplain hkey (iff_of_false (not_or.2 ⟨hstill, hbase⟩) Bool.false_ne_true) hkind
          (c.unique && !key.isInline c.name)
      refine ⟨_, ?_, hwrites⟩
      show Except.ok _ = Except.ok _
      simp [ColumnForm.parts]

end Direction

/-! ## The columns of a table -/

/-- The kinds of lengths of columns. If `counting`, the first column that counts up
counts: it is written as an integer, without a length. -/
def lengthKinds (counting : Bool) : List Column → List LengthKind
  | [] => []
  | c :: cs =>
    (if counting && c.countsUp then .free else c.lengthKind) :: lengthKinds (counting && !c.countsUp) cs

/-- Whether the first column that counts up counts does not matter if it has no
length. -/
theorem lengthKinds_of_free {cs : List Column} (h : ∀ c ∈ cs, c.countsUp = true → c.lengthKind = .free)
    (counting : Bool) : lengthKinds counting cs = cs.map Column.lengthKind := by
  induction cs generalizing counting with
  | nil => rfl
  | cons c cs ih =>
    rw [lengthKinds, ih fun b hb => h b (List.mem_cons_of_mem c hb), List.map_cons]
    split
    · rename_i hcounts
      rw [Bool.and_eq_true] at hcounts
      rw [h c List.mem_cons_self hcounts.2]
    · rfl

namespace Direction

variable {d : Direction} {key : PrimaryKey}

/-- The forms are how the target writes the columns in order. If `counting`, the
first column that counts up is written as the one that counts, else none. -/
inductive WritesColumns (d : Direction) (key : PrimaryKey) : Bool → List Column → List ColumnForm → Prop
  | nil {counting : Bool} : WritesColumns d key counting [] []
  | cons {counting : Bool} {c : Column} {cs : List Column} {f : ColumnForm} {fs : List ColumnForm}
    (hf : d.WritesColumn c (key.isInline c.name) (counting && c.countsUp) f)
    (hfs : WritesColumns d key (counting && !c.countsUp) cs fs) :
    WritesColumns d key counting (c :: cs) (f :: fs)

/-- Where the column that counts stands: if `counting`, it is the first of the
columns from place `i` on that counts up, else it stands before them. -/
def CountsAt (place : Option Nat) (counting : Bool) (i : Nat) (cs : List Column) : Prop :=
  if counting then place = (cs.findIdx? Column.countsUp).map (· + i) else ∀ j, place = some j → j < i

theorem CountsAt.cons {place : Option Nat} {counting : Bool} {i : Nat} {c : Column} {cs : List Column}
    (h : CountsAt place counting i (c :: cs)) :
    (place == some i) = (counting && c.countsUp) ∧ CountsAt place (counting && !c.countsUp) (i + 1) cs := by
  cases counting with
  | false =>
    have hbefore : ∀ j, place = some j → j < i := h
    refine ⟨beq_eq_false_iff_ne.2 fun hi => Nat.lt_irrefl i (hbefore i hi), ?_⟩
    exact fun j hj => Nat.lt_succ_of_lt (hbefore j hj)
  | true =>
    have hplace : place = ((c :: cs).findIdx? Column.countsUp).map (· + i) := h
    rw [List.findIdx?_cons] at hplace
    cases hc : c.countsUp with
    | true =>
      rw [hc, if_pos rfl, Option.map_some, Nat.zero_add] at hplace
      refine ⟨by rw [hplace]; exact beq_self_eq_true _, fun j hj => ?_⟩
      rw [hplace] at hj
      cases hj
      exact Nat.lt_succ_self i
    | false =>
      have hshift : place = (cs.findIdx? Column.countsUp).map (· + (i + 1)) := by
        rw [hplace, hc, if_neg Bool.false_ne_true, Option.map_map]
        congr 1
        funext j
        show j + 1 + i = j + (i + 1)
        omega
      refine ⟨beq_eq_false_iff_ne.2 fun hi => ?_, hshift⟩
      rw [hshift, Option.map_eq_some_iff] at hi
      obtain ⟨j, -, hj⟩ := hi
      omega

theorem outcome_columnClauses_cons (d : Direction) (key : PrimaryKey) (place : Option Nat) (i : Nat) (c : Column)
    (cs : List Column) : (d.columnClauses key place i (c :: cs)).outcome =
      (d.column key (place == some i) c).outcome.bind fun parts =>
        (d.columnClauses key place (i + 1) cs).outcome.map (.column c parts :: ·) := by
  rw [columnClauses, Traced.outcome_bind]
  congr 1
  funext parts
  rw [Traced.outcome_bind]
  cases (d.columnClauses key place (i + 1) cs).outcome <;> rfl

/-- Common columns are written in order, unless SQL Server refuses one. -/
theorem outcome_columnClauses (hset : d.settings = .standard) {cs : List Column}
    (h : ∀ c ∈ cs, c.IsCore Token.IsValue) {place : Option Nat} {counting : Bool} {i : Nat}
    (hplace : CountsAt place counting i cs)
    (hrowid : counting = true → d.target = .sqlite →
      ∀ c, cs.find? Column.countsUp = some c → key.isInline c.name = true) :
    if d.target = .sqlserver ∧ .varying ∈ lengthKinds counting cs then
      (d.columnClauses key place i cs).outcome = .error (.fault .badNumber)
    else ∃ fs, d.WritesColumns key counting cs fs ∧ (d.columnClauses key place i cs).outcome =
      .ok (List.zipWith (fun c f => .column c (f.parts d.target)) cs fs) := by
  induction cs generalizing counting i with
  | nil =>
    rw [if_neg fun hrefused => List.not_mem_nil hrefused.2]
    exact ⟨[], .nil, rfl⟩
  | cons c cs ih =>
    obtain ⟨hhere, hthere⟩ := hplace.cons
    have hcolumn := outcome_column hset (h c List.mem_cons_self) key (counting && c.countsUp) fun hcounts htarget => by
      rw [Bool.and_eq_true] at hcounts
      exact hrowid hcounts.1 htarget c (List.find?_cons_of_pos hcounts.2)
    have hcolumns := ih (fun b hb => h b (List.mem_cons_of_mem c hb)) hthere fun hcounting htarget b hb => by
      rw [Bool.and_eq_true, Bool.not_eq_true'] at hcounting
      refine hrowid hcounting.1 htarget b ?_
      rw [List.find?_cons_of_neg (by rw [hcounting.2]; exact Bool.false_ne_true)]
      exact hb
    rw [outcome_columnClauses_cons, hhere]
    by_cases hfirst : d.target = .sqlserver ∧ (counting && c.countsUp) = false ∧ c.lengthKind = .varying
    · rw [if_pos hfirst] at hcolumn
      rw [if_pos ⟨hfirst.1, by rw [lengthKinds, hfirst.2.1, hfirst.2.2]; exact List.mem_cons_self⟩, hcolumn]
      rfl
    · rw [if_neg hfirst] at hcolumn
      obtain ⟨f, hf, hwrites⟩ := hcolumn
      rw [hf]
      by_cases hrest : d.target = .sqlserver ∧ .varying ∈ lengthKinds (counting && !c.countsUp) cs
      · rw [if_pos hrest] at hcolumns
        rw [if_pos ⟨hrest.1, List.mem_cons_of_mem _ hrest.2⟩, hcolumns]
        rfl
      · rw [if_neg hrest] at hcolumns
        obtain ⟨fs, hfs, hout⟩ := hcolumns
        have hnone : ¬(d.target = .sqlserver ∧ .varying ∈ lengthKinds counting (c :: cs)) := by
          rintro ⟨htarget, hin⟩
          rcases List.mem_cons.1 hin with hin | hin
          · split at hin
            · cases hin
            · rename_i hcounts
              exact hfirst ⟨htarget, Bool.eq_false_iff.2 hcounts, hin.symm⟩
          · exact hrest ⟨htarget, hin⟩
        rw [if_neg hnone, hout]
        exact ⟨f :: fs, .cons hwrites hfs, rfl⟩

namespace WritesColumns

variable {counting : Bool} {cs : List Column} {fs : List ColumnForm}

theorem sound (h : d.WritesColumns key counting cs fs) : ∀ f ∈ fs, f.IsSound := by
  induction h with
  | nil => exact fun f hf => nomatch hf
  | cons hf hfs ih =>
    intro g hg
    rcases List.mem_cons.1 hg with rfl | hg
    · exact hf.sound
    · exact ih g hg

theorem widen (h : d.WritesColumns key counting cs fs) :
    d.WritesColumns key counting cs (fs.map ColumnForm.widen) := by
  induction h with
  | nil => exact .nil
  | cons hf hfs ih => exact .cons hf.widen ih

theorem render (h : d.WritesColumns key counting cs fs) :
    (List.zipWith (fun c f => RenderedClause.column c (f.parts d.target)) cs fs).map RenderedClause.render =
      fs.map fun f => renderTokens (f.tokens d.target) := by
  induction h with
  | nil => rfl
  | cons hf hfs ih =>
    rw [List.zipWith_cons_cons, List.map_cons, List.map_cons, ih, hf.sound.render d.target]

theorem names (h : d.WritesColumns key counting cs fs) :
    (fs.map ColumnForm.column).map (fun c => c.name) = cs.map fun c => c.name := by
  induction h with
  | nil => rfl
  | cons hf hfs ih =>
    rw [List.map_cons, List.map_cons, List.map_cons, ih, ColumnForm.name_column, hf.name]

theorem inlineKeys (h : d.WritesColumns key counting cs fs) :
    ((fs.map ColumnForm.column).filter fun c => c.primaryKey).map (fun c => c.name) =
      (cs.filter fun c => key.isInline c.name).map fun c => c.name := by
  induction h with
  | nil => rfl
  | @cons counting c cs f fs hf hfs ih =>
    have hkey : f.column.primaryKey = key.isInline c.name := by
      rw [ColumnForm.primaryKey_column, Bool.eq_iff_iff, decide_eq_true_eq]
      exact hf.key
    rw [List.map_cons, List.filter_cons, List.filter_cons, hkey]
    split
    · rw [List.map_cons, List.map_cons, ih, ColumnForm.name_column, hf.name]
    · exact ih

theorem free (h : d.WritesColumns key counting cs fs) :
    ∀ c ∈ fs.map ColumnForm.column, c.countsUp = true → c.lengthKind = .free := by
  induction h with
  | nil => exact fun c hc => nomatch hc
  | cons hf hfs ih =>
    intro b hb hcounts
    rcases List.mem_cons.1 hb with rfl | hb
    · rw [ColumnForm.lengthKind_column, hf.kind, if_pos (hf.counting.1 (hf.sound.countsUp.1 hcounts))]
    · exact ih b hb hcounts

theorem kinds (h : d.WritesColumns key counting cs fs) (again : Bool) :
    lengthKinds again (fs.map ColumnForm.column) = (lengthKinds counting cs).map (LengthKind.carried d.target) := by
  have hfree : LengthKind.carried d.target .free = .free := by cases d.target <;> rfl
  rw [lengthKinds_of_free h.free]
  induction h with
  | nil => rfl
  | cons hf hfs ih =>
    rw [lengthKinds, List.map_cons, List.map_cons, List.map_cons, ih, ColumnForm.lengthKind_column, hf.kind]
    split
    · rw [hfree]
    · rfl

end WritesColumns

end Direction

end TableDialects
