import TableDialects.Proofs.Translate.Default
import TableDialects.Proofs.Translate.Key
import TableDialects.Proofs.Translate.Type
import TableDialects.Proofs.Types.Read

/- Columns of truth values in PostgreSQL. Whether a column holds truth values is
   decided twice: for its default from the base name and the parameters as they were
   read (`Column.isBoolean`), and for its type by the tables (`translateType`). The two
   agree on every type but `bit`, for all spellings of parameters, and a default that
   is one literal is then written as TRUE or FALSE exactly if it stands for a truth
   value (`boolean_type_default_agree`). -/
namespace TableDialects

/-! ## Types that become BOOLEAN -/

/-- PostgreSQL writes the type as BOOLEAN: by its own name, as a small integer of one
digit, or as the `bit` of SQL Server. -/
def BecomesBoolean (source : Dialect) (b params : Text) : Prop :=
  b = "boolean".toList ∨ b = "bool".toList ∨ b = "tinyint".toList ∧ params = "(1)".toList ∨
    b = "bit".toList ∧ source = .sqlserver

theorem BecomesBoolean.mem {source : Dialect} {b params : Text} (h : BecomesBoolean source b params) :
    b ∈ ["boolean".toList, "bool".toList, "tinyint".toList, "bit".toList] := by
  rcases h with rfl | rfl | ⟨rfl, -⟩ | ⟨rfl, -⟩ <;> decide

theorem sourceRule?_boolean {source : Dialect} {parts : TypeParts} {type : Text} {k : String}
    (h : sourceRule? source .postgresql parts type = some k) (hk : k.toList = "BOOLEAN".toList) :
    parts.base = "tinyint".toList ∧ parts.params = "(1)".toList ∨
      parts.base = "bit".toList ∧ source = .sqlserver := by
  have hother : ∀ k' : String, k'.toList ≠ "BOOLEAN".toList → some k' ≠ some k := by
    rintro k' hne heq
    cases heq
    exact hne hk
  unfold sourceRule? at h
  cases source with
  | mysql =>
    dsimp only at h
    split at h
    · exact absurd h (hother _ (by decide))
    · split at h
      · rename_i hone
        rw [Bool.and_eq_true, beq_iff_eq, beq_iff_eq] at hone
        exact .inl hone
      · cases h
  | postgresql =>
    -- PostgreSQL has no rules for itself.
    simp only [ite_self] at h
    cases h
  | sqlite =>
    dsimp only at h
    split at h
    · exact absurd h (hother _ (by decide))
    · cases h
  | sqlserver =>
    dsimp only at h
    split at h
    · rename_i hbit
      exact .inr ⟨beq_iff_eq.1 hbit, rfl⟩
    · split at h
      · split at h
        · exact absurd h (hother _ (by decide))
        · split at h
          · exact absurd h (hother _ (by decide))
          · cases h
      · cases h

theorem takeWhile_prefix_withParams (keyword params : Text) :
    keyword.takeWhile (· != '(') <+: withParams keyword params := by
  have hself : keyword.takeWhile (· != '(') <+: keyword := List.takeWhile_prefix _
  unfold withParams
  split
  · exact hself
  · split
    · split
      · exact List.prefix_append _ _
      · exact hself
    · split
      · exact hself.trans (List.prefix_append _ _)
      · split
        · exact hself.trans (List.prefix_append _ _)
        · exact hself

/-- The table gives BOOLEAN for what it lists with that keyword. -/
theorem lookupType_of_tableType? {parts : TypeParts} (h : tableType? .postgresql parts = some "BOOLEAN".toList) :
    lookupType postgresqlTypes parts.base parts.params = some "BOOLEAN" := by
  -- No other keyword starts as BOOLEAN does.
  have hkeyword : ∀ e ∈ postgresqlTypes, e.2.toList.takeWhile (· != '(') <+: "BOOLEAN".toList →
      e.2 = "BOOLEAN" := by
    rw [Text.toList_eq_ofBytes]
    decide +kernel
  unfold tableType? at h
  rw [show Dialect.postgresql.profile.types = postgresqlTypes from rfl] at h
  dsimp only at h
  split at h
  · cases h
  · rename_i keyword hlookup
    have hprefix : keyword.toList.takeWhile (· != '(') <+: "BOOLEAN".toList := by
      split at h
      · rw [← Option.some.inj h]
        exact List.takeWhile_prefix _
      · rw [← Option.some.inj h]
        exact takeWhile_prefix_withParams keyword.toList parts.params
    obtain ⟨e, he, rfl, -⟩ := lookupType_eq_some hlookup
    rw [hlookup, hkeyword e he hprefix]

section Name
variable {b q : Text}

theorem IsNormalParams.filter (hq : IsNormalParams q) : IsNormalParams (q.filter (· != ' ')) where
  closed := by
    rcases hq.closed with rfl | ⟨m, rfl⟩
    · exact .inl rfl
    · exact .inr ⟨m.filter (· != ' '), by simp⟩
  settled c hc := hq.settled c (List.mem_filter.1 hc).1
  spaces c hc := hq.spaces c (List.mem_filter.1 hc).1

/-- A name and parameters that together have no parenthesis are a name alone. -/
theorem name_of_append {key : Text} (hq : IsNormalParams q) (hkey : '(' ∉ key) (h : b ++ q = key) : b = key := by
  rcases hq.closed with rfl | ⟨m, rfl⟩
  · rwa [List.append_nil] at h
  · refine absurd ?_ hkey
    rw [← h]
    simp

theorem eq_of_booleanName (hparen : '(' ∉ b) (hq : IsNormalParams q) {e : String × String}
    (he : e ∈ postgresqlTypes) (hkeyword : e.2 = "BOOLEAN") (h : e.1.toList = b ++ q) :
    b = "boolean".toList ∨ b = "bool".toList ∨ b = "tinyint".toList ∧ q = "(1)".toList := by
  have hnames : ∀ e ∈ postgresqlTypes, e.2 = "BOOLEAN" → e.1.toList = "boolean".toList ∨
      e.1.toList = "bool".toList ∨ e.1.toList = "tinyint".toList ++ '(' :: "1)".toList := by decide +kernel
  rcases hnames e he hkeyword with hname | hname | hname
  · exact .inl (name_of_append hq (by decide) (h.symm.trans hname))
  · exact .inr (.inl (name_of_append hq (by decide) (h.symm.trans hname)))
  · right; right
    rw [h] at hname
    rcases hq.closed with rfl | ⟨m, rfl⟩
    · refine absurd ?_ hparen
      rw [List.append_nil] at hname
      rw [hname]
      simp
    · obtain ⟨rfl, hm⟩ := TypeParts.append_cons_inj hparen (by decide) hname
      exact ⟨rfl, congrArg ('(' :: ·) hm⟩

variable {source : Dialect}

theorem becomesBoolean_of_sourceRule? (hb : IsNormalName b) (hne : b ≠ []) (hparen : '(' ∉ b)
    (hq : IsNormalParams q) {type : Text} {k : String}
    (h : sourceRule? source .postgresql (TypeParts.split (b ++ q)) type = some k)
    (hk : k.toList = "BOOLEAN".toList) : BecomesBoolean source b (q.filter (· != ' ')) := by
  have hrule := sourceRule?_boolean h hk
  rcases TypeParts.split_cases hb hne hparen hq with ⟨n, hn, hzoned⟩ | hsplit | hsplit
  · have hother : ∀ n ∈ TypeParts.zonedNames, n.toList ≠ "tinyint".toList ∧ n.toList ≠ "bit".toList := by decide +kernel
    rw [hzoned] at hrule
    rcases hrule with ⟨hbase, -⟩ | ⟨hbase, -⟩
    · exact absurd hbase (hother n hn).1
    · exact absurd hbase (hother n hn).2
  · rw [hsplit] at hrule
    rcases hrule with hone | hbit
    · exact .inr (.inr (.inl hone))
    · exact .inr (.inr (.inr hbit))
  · rw [hsplit] at hrule
    rcases hrule with ⟨-, hparams⟩ | ⟨hbase, hsource⟩
    · cases hparams
    · exact .inr (.inr (.inr ⟨name_of_append hq (by decide) hbase, hsource⟩))

theorem becomesBoolean_of_lookupType (hb : IsNormalName b) (hne : b ≠ []) (hparen : '(' ∉ b)
    (hq : IsNormalParams q)
    (h : lookupType postgresqlTypes (TypeParts.split (b ++ q)).base (TypeParts.split (b ++ q)).params =
      some "BOOLEAN") : BecomesBoolean source b (q.filter (· != ' ')) := by
  obtain ⟨e, he, hkeyword, hname⟩ := lookupType_eq_some h
  suffices hone : b = "boolean".toList ∨ b = "bool".toList ∨
      b = "tinyint".toList ∧ q.filter (· != ' ') = "(1)".toList from
    hone.imp_right fun h => h.imp_right .inl
  rcases TypeParts.split_cases hb hne hparen hq with ⟨n, hn, hzoned⟩ | hsplit | hsplit
  · have hother : ∀ e ∈ postgresqlTypes, e.2 = "BOOLEAN" → e.1.toList.take 4 ≠ "time".toList := by
      rw [Text.toList_eq_ofBytes]
      decide +kernel
    have hfour : ∀ n ∈ TypeParts.zonedNames, ∃ rest, Text.strip (Text.lower n.toList) = "time".toList ++ rest := by
      simp only [TypeParts.zonedNames, List.forall_mem_cons]
      exact ⟨⟨_, rfl⟩, ⟨_, rfl⟩, ⟨_, rfl⟩, ⟨_, rfl⟩, List.forall_mem_nil _⟩
    obtain ⟨rest, hrest⟩ := hfour n hn
    rw [hzoned, hrest] at hname
    refine absurd ?_ (hother e he hkeyword)
    rcases hname with hname | hname <;> rw [hname] <;> rfl
  · rw [hsplit] at hname
    dsimp only at hname
    rw [Text.lower_of_settled hb.settled, hb.strip_self hne, List.filter_filter] at hname
    simp only [Bool.and_self] at hname
    rw [Text.lower_of_settled hq.filter.settled] at hname
    rcases hname with hname | hname
    · exact eq_of_booleanName hparen hq.filter he hkeyword hname
    · rw [← List.append_nil b] at hname
      exact (eq_of_booleanName hparen isNormalParams_nil he hkeyword hname).imp_right
        fun h => h.imp_right fun hone => absurd hone.2 (by decide)
  · have hname' : e.1.toList = b ++ q := by
      rw [hsplit] at hname
      dsimp only at hname
      rw [Text.lower_of_settled (List.forall_mem_append.2 ⟨hb.settled, hq.settled⟩), hb.strip_append hne hq] at hname
      rcases hname with hname | hname
      · exact hname.trans (List.append_nil _)
      · exact hname
    refine (eq_of_booleanName hparen hq he hkeyword hname').imp_right fun h => h.imp_right ?_
    rintro ⟨hbase, rfl⟩
    exact ⟨hbase, rfl⟩

theorem becomesBoolean_of_upper (hb : IsNormalName b) (hq : IsNormalParams q)
    (h : Text.upper (b ++ q) = "BOOLEAN".toList) : BecomesBoolean source b (q.filter (· != ' ')) := by
  have hletters : Text.Unmixed "BOLEAN".toList := ⟨by decide, by decide +kernel, by decide +kernel⟩
  have hsettled := List.forall_mem_append.2 ⟨hb.settled, hq.settled⟩
  have hback := hletters.eq_of_upper hsettled (by rw [h]; decide)
  rw [h] at hback
  exact .inl (name_of_append hq (by decide) hback)

/-- A name that is none of a zoned time is split from its parameters. -/
theorem split_of_name (hb : TypeParts.IsBaseName b) (hzoned : TypeParts.zoned? (b ++ q) = none)
    (hq : IsNormalParams q) : TypeParts.split (b ++ q) = ⟨b, q.filter (· != ' ')⟩ := by
  refine TypeParts.split_name hb hzoned ?_
  rcases hq.closed with rfl | ⟨m, rfl⟩
  · rfl
  · refine TypeParts.params?_closed fun c hc hline => ?_
    subst hline
    exact absurd (hq.spaces '\n' (by simp [hc]) (by decide)) (by decide)

theorem withParams_boolean (params : Text) : withParams "BOOLEAN".toList params = "BOOLEAN".toList := by
  unfold withParams
  split
  · rfl
  · rw [if_neg (by decide), if_neg (by decide), if_neg]
    rw [Bool.and_eq_true, not_and]
    exact fun h => absurd h (by decide)

/-- Names that start as `bool` does are looked up as BOOLEAN, with any parameters. -/
theorem tableType?_bool (hb : b = "boolean".toList ∨ b = "bool".toList) (params : Text) :
    tableType? .postgresql ⟨b, params⟩ = some "BOOLEAN".toList := by
  have hstart : ∀ e ∈ postgresqlTypes, e.1.toList.take 4 = "bool".toList → e.2 = "BOOLEAN" := by
    rw [Text.toList_eq_ofBytes]
    decide +kernel
  have hname : Text.strip (Text.lower b) = b ∧ tableValue? postgresqlTypes b = some "BOOLEAN" ∧
      ∃ rest, b = "bool".toList ++ rest := by
    have hvalues : ∀ n ∈ ["boolean", "bool"], tableValue? postgresqlTypes n.toList = some "BOOLEAN" := by
      unfold tableValue?
      rw [Text.toList_eq_ofBytes]
      decide +kernel
    rcases hb with rfl | rfl
    · exact ⟨rfl, hvalues "boolean" (by simp), _, rfl⟩
    · exact ⟨rfl, hvalues "bool" (by simp), _, rfl⟩
  obtain ⟨hstrip, hvalue, rest, hrest⟩ := hname
  have hlookup : lookupType postgresqlTypes b params = some "BOOLEAN" := by
    unfold lookupType
    dsimp only
    rw [hstrip]
    split
    · rename_i entry hentry
      split at hentry
      · cases hentry
      · obtain ⟨e, he, heq, rfl⟩ := tableValue?_eq_some hentry
        rw [hstart e he (by rw [heq, hrest]; rfl)]
    · exact hvalue
  unfold tableType?
  rw [show Dialect.postgresql.profile.types = postgresqlTypes from rfl]
  dsimp only
  rw [hlookup]
  dsimp only
  rw [withParams_boolean]
  exact ite_self _

theorem sourceRule?_bool (hb : b = "boolean".toList ∨ b = "bool".toList) (params type : Text) :
    sourceRule? source .postgresql ⟨b, params⟩ type = none := by
  rcases hb with rfl | rfl
  · cases source with
    | sqlserver => exact ite_self _
    | _ => rfl
  · cases source with
    | sqlserver => exact ite_self _
    | _ => rfl

theorem translateType_boolean_iff (source : Dialect) (hb : IsNormalName b) (hne : b ≠ []) (hparen : '(' ∉ b)
    {p : Text} (hp : p = [] ∨ ∃ m, p = '(' :: (m ++ [')'])) :
    translateType (some source) .postgresql (b ++ p) = "BOOLEAN".toList ↔
      BecomesBoolean source b ((normalParams b p).filter (· != ' ')) := by
  have hq := isNormalParams_of_text b hp
  unfold translateType
  rw [normalType_name hb hne hp]
  generalize normalParams b p = q at hq
  dsimp only [Option.bind_some]
  constructor
  · intro h
    split at h
    · exact becomesBoolean_of_sourceRule? hb hne hparen hq ‹_› h
    · split at h
      · rename_i keyword htable
        rw [h] at htable
        exact becomesBoolean_of_lookupType hb hne hparen hq (lookupType_of_tableType? htable)
      · exact becomesBoolean_of_upper hb hq h
  · have hbool : b = "boolean".toList ∨ b = "bool".toList →
        TypeParts.split (b ++ q) = ⟨b, q.filter (· != ' ')⟩ := by
      rintro (rfl | rfl) <;> exact split_of_name (TypeParts.isBaseName_of_check (by decide)) rfl hq
    rintro (hname | hname | ⟨rfl, hone⟩ | ⟨rfl, rfl⟩)
    · rw [hbool (.inl hname), sourceRule?_bool (.inl hname)]
      dsimp only
      rw [tableType?_bool (.inl hname)]
    · rw [hbool (.inr hname), sourceRule?_bool (.inr hname)]
      dsimp only
      rw [tableType?_bool (.inr hname)]
    · rw [split_of_name (TypeParts.isBaseName_of_check (by decide)) rfl hq, hone]
      cases source <;> rfl
    · rw [split_of_name (TypeParts.isBaseName_of_check (by decide)) rfl hq]
      rfl

end Name

/-! ## Columns of truth values -/

theorem Column.hasBase_iff (c : Column) (names : List String) :
    c.hasBase names = true ↔ ∃ n ∈ names, c.baseType = n.toList := by
  rw [Column.hasBase, List.any_eq_true]
  exact exists_congr fun n => and_congr_right fun _ => beq_iff_eq.trans eq_comm

theorem Column.not_becomesBoolean {source : Dialect} {params : Text} {c : Column} {names : List String}
    (h : c.hasBase names = true) (hnames : ∀ n ∈ names, n.toList ∉
      ["boolean".toList, "bool".toList, "tinyint".toList, "bit".toList]) :
    ¬ BecomesBoolean source c.baseType params := by
  intro hboolean
  obtain ⟨n, hn, heq⟩ := (c.hasBase_iff names).1 h
  exact hnames n hn (heq ▸ hboolean.mem)

theorem Column.isBoolean_iff (c : Column) : c.isBoolean = true ↔
    c.baseType = "boolean".toList ∨ c.baseType = "bool".toList ∨
      c.baseType = "tinyint".toList ∧ c.typeParams.filter (· != ' ') = "(1)".toList ∨
      c.baseType = "bit".toList ∧
        (c.typeParams.filter (· != ' ') = [] ∨ c.typeParams.filter (· != ' ') = "(1)".toList) := by
  rw [Column.isBoolean]
  simp only [Bool.or_eq_true, Bool.and_eq_true, beq_iff_eq, List.isEmpty_iff, Column.hasBase_iff]
  simp [or_assoc]

namespace Direction

/-- Neither a column without a type nor one that counts up or is widened becomes
BOOLEAN. -/
theorem plain_not_boolean (source : Dialect) : ∀ n ∈ ["text", "smallint", "integer", "bigint", "numeric(20)"],
    translateType (some source) .postgresql n.toList ≠ "BOOLEAN".toList := by
  have hname : ∀ {b p : Text}, TypeParts.isBaseName b = true → (p = [] ∨ ∃ m, p = '(' :: (m ++ [')'])) →
      '(' ∉ b → b ∉ ["boolean".toList, "bool".toList, "tinyint".toList, "bit".toList] →
      translateType (some source) .postgresql (b ++ p) ≠ "BOOLEAN".toList := by
    intro b p hb hp hparen hother h
    have hbase := TypeParts.isBaseName_of_check hb
    exact hother ((translateType_boolean_iff source hbase.isNormalName hbase.ne_nil hparen hp).1 h).mem
  simp only [List.forall_mem_cons]
  refine ⟨?_, ?_, ?_, ?_, ?_, List.forall_mem_nil _⟩
  · exact hname (b := "text".toList) (by decide) (.inl rfl) (by decide) (by decide)
  · exact hname (b := "smallint".toList) (by decide) (.inl rfl) (by decide) (by decide)
  · exact hname (b := "integer".toList) (by decide) (.inl rfl) (by decide) (by decide)
  · exact hname (b := "bigint".toList) (by decide) (.inl rfl) (by decide) (by decide)
  · exact hname (b := "numeric".toList) (by decide) (.inr ⟨"20".toList, rfl⟩) (by decide) (by decide)

theorem type_boolean_iff {d : Direction} (hd : d.target = .postgresql) {clause : Text} {c : Column}
    (hread : Column.read clause (tokenize clause) = .ok c) (hne : c.baseType ≠ []) (hparen : '(' ∉ c.baseType) :
    d.type ((d.widening? c).getD (plainTypeName c)) = "BOOLEAN".toList ↔
      BecomesBoolean d.source c.baseType (c.typeParams.filter (· != ' ')) := by
  obtain ⟨hname, hparams⟩ := Column.normal_of_read hread
  have hclosed : c.typeParams = [] ∨ ∃ m, c.typeParams = '(' :: (m ++ [')']) := by
    refine hparams.imp_right ?_
    rintro ⟨inner, -, heq⟩
    exact ⟨_, heq⟩
  have hother : ∀ n ∈ ["text", "smallint", "integer", "bigint", "numeric(20)"],
      ¬ BecomesBoolean d.source c.baseType (c.typeParams.filter (· != ' ')) →
        (d.type n.toList = "BOOLEAN".toList ↔
          BecomesBoolean d.source c.baseType (c.typeParams.filter (· != ' '))) := by
    intro n hn hnot
    rw [type, hd]
    exact iff_of_false (plain_not_boolean d.source n hn) hnot
  cases hwiden : d.widening? c with
  | some w =>
    unfold widening? at hwiden
    split at hwiden
    · rename_i hunsigned
      obtain ⟨name, hfound, rfl⟩ := Option.map_eq_some_iff.1 hwiden
      obtain ⟨e, he, hbase, rfl⟩ := tableValue?_eq_some hfound
      have hwider : ∀ e ∈ widenings, e.2 ∈ ["text", "smallint", "integer", "bigint", "numeric(20)"] ∧
          e.1.toList ≠ "bit".toList := by decide
      refine hother e.2 (hwider e he).1 fun hboolean => ?_
      simp only [Bool.and_eq_true, Bool.not_eq_true'] at hunsigned
      refine absurd ((Column.isBoolean_iff c).2 ?_) (Bool.eq_false_iff.1 hunsigned.2)
      refine hboolean.imp_right fun h => h.imp_right fun h => h.imp_right fun hbit => ?_
      exact absurd (hbase.trans hbit.1) (hwider e he).2
    · cases hwiden
  | none =>
    rw [Option.getD_none, plainTypeName]
    split
    · exact hother "bigint" (by decide) (Column.not_becomesBoolean ‹_› (by decide))
    split
    · exact hother "smallint" (by decide) (Column.not_becomesBoolean ‹_› (by decide))
    split
    · exact hother "integer" (by decide) (Column.not_becomesBoolean ‹_› (by decide))
    · rw [type, hd, Column.typeName, translateType_boolean_iff d.source hname hne hparen hclosed, BecomesBoolean,
        normalParams_one_iff hparams]
      rfl

/-- What a column is written as in PostgreSQL if it is no array. -/
theorem columnType?_boolean_iff {d : Direction} (hd : d.target = .postgresql) {clause : Text} {c : Column}
    (hread : Column.read clause (tokenize clause) = .ok c) (harray : c.isArray = false) (hparen : '(' ∉ c.baseType) :
    (d.columnType? c).outcome = .ok (some "BOOLEAN".toList) ↔
      BecomesBoolean d.source c.baseType (c.typeParams.filter (· != ' ')) := by
  unfold columnType?
  by_cases hbase : c.baseType = []
  · rw [if_pos (List.isEmpty_iff.2 hbase), hbase]
    refine iff_of_false (fun h => ?_) fun h => absurd h.mem (by decide)
    have htext : d.type "text" = "BOOLEAN".toList := Option.some.inj (Except.ok.inj h)
    rw [type, hd] at htext
    exact plain_not_boolean d.source "text" (by decide) htext
  · rw [if_neg (by simpa using hbase), harray, if_neg Bool.false_ne_true]
    by_cases henum : c.hasBase ["enum", "set"] = true
    · rw [if_pos henum, hd]
      refine iff_of_false (fun h => ?_) (Column.not_becomesBoolean henum (by decide))
      have htext : "TEXT".toList = "BOOLEAN".toList := Option.some.inj (Except.ok.inj h)
      exact absurd htext (by decide)
    · rw [if_neg henum, ← type_boolean_iff hd hread hbase hparen, Traced.outcome_bind,
        outcome_scalarType_of_type d c rfl]
      generalize d.type ((d.widening? c).getD (plainTypeName c)) = type
      have hkept : d.lengthened type = type := by rw [lengthened, hd]; rfl
      have hwritten : (if d.target = .sqlserver then (limitLength type).outcome else
          .ok (if c.unsigned && d.target == .mysql then type ++ " UNSIGNED".toList else type) :
            Except Error Text).map d.lengthened = .ok type := by
        rw [hd, if_neg (by decide), show (Dialect.postgresql == .mysql) = false from rfl, Bool.and_false]
        exact congrArg Except.ok hkept
      rw [hwritten]
      exact ⟨fun h => Option.some.inj (Except.ok.inj h), fun h => congrArg (fun t => Except.ok (some t)) h⟩

end Direction

/-! ## Defaults of truth values -/

theorem Traced.mem_changes_bind {α β : Type} {x : Traced α} {f : α → Traced β} {r : Change}
    (h : r ∈ (x >>= f).changes) : r ∈ x.changes ∨ ∃ a, x.outcome = .ok a ∧ r ∈ (f a).changes := by
  change r ∈ (x.andThen f).changes at h
  unfold Traced.andThen at h
  cases hx : x.outcome with
  | error e =>
    rw [hx] at h
    exact .inl h
  | ok a =>
    rw [hx] at h
    exact (List.mem_append.1 h).imp_right fun h => ⟨a, rfl, h⟩

theorem Traced.mem_changes_recordIf {c : Bool} {r r' : Change} (h : r ∈ (recordIf c r').changes) : r = r' := by
  unfold recordIf at h
  split at h
  · exact List.mem_singleton.1 h
  · cases h

namespace Direction

/-- The rule for truth values is applied to columns of them alone. -/
theorem isBoolean_of_booleanDefault {d : Direction} {c : Column} (h : .booleanDefault ∈ (d.default? c).changes) :
    c.isBoolean = true := by
  cases hboolean : c.isBoolean with
  | true => rfl
  | false =>
    unfold default? at h
    split at h
    · cases h
    · cases h
    · rename_i ts hne hts
      dsimp only at h
      rcases Traced.mem_changes_bind h with h | ⟨-, -, h⟩
      · cases Traced.mem_changes_recordIf h
      · rw [booleanDefault?, hboolean, if_neg Bool.false_ne_true] at h
        dsimp only at h
        rcases Traced.mem_changes_bind h with h | ⟨text, -, h⟩
        · unfold Expression.render at h
          split at h
          · cases h
          · dsimp only at h
            rcases Traced.mem_changes_bind h with h | ⟨-, -, h⟩
            · cases Traced.mem_changes_recordIf h
            · cases h
        · split at h
          · rcases Traced.mem_changes_bind h with h | ⟨-, -, h⟩
            · cases List.mem_singleton.1 h
            · cases h
          · cases h

/-- A literal that was scanned is no word in PostgreSQL: it starts as a number or a
string does. -/
theorem respell_literal {clause : Text} {source : Dialect} {t : Token} (ht : t ∈ tokenize clause)
    (hkind : t.kind = .number ∨ t.kind = .string) (b : Bool) :
    Expression.respell source .postgresql t ≠ Dialect.postgresql.boolean b := by
  have hstart : ∃ c w, Expression.respell source .postgresql t = c :: w ∧
      (Text.isDigit c = true ∨ c = '.' ∨ c = '\'') := by
    obtain ⟨r, hr⟩ := readsToken_of_mem ht
    obtain ⟨hnumber, hstring⟩ := hr.literal
    unfold Expression.respell
    rcases hkind with hk | hk
    · rw [hk]
      obtain ⟨c, w, hv, hc⟩ := ReadsNumber.head (hnumber hk)
      exact ⟨c, w, hv, hc.imp_right .inl⟩
    · rw [hk]
      obtain ⟨lead, body, hv, hlead, -⟩ := hstring hk
      refine ⟨'\'', body, ?_, .inr (.inr rfl)⟩
      rw [hv]
      rcases hlead with rfl | rfl | rfl <;> rfl
  obtain ⟨c, w, heq, hc⟩ := hstart
  rw [heq]
  rintro hb
  have hword : c = 'T' ∨ c = 'F' := by
    cases b with
    | true => exact .inl (List.cons.inj hb).1
    | false => exact .inr (List.cons.inj hb).1
  rcases hword with rfl | rfl <;> revert hc <;> decide

/-- A default that is one literal is a truth value in a column of them exactly if it
stands for one. -/
theorem default?_literal_iff {d : Direction} (hd : d.target = .postgresql) {clause : Text} {c : Column}
    (hboolean : c.isBoolean = true) {t : Token} (hc : c.default = some [t]) (ht : t ∈ tokenize clause)
    (hkind : t.kind = .number ∨ t.kind = .string) (b : Bool) :
    (d.default? c).outcome = .ok (some (Dialect.postgresql.boolean b)) ↔ Expression.truthValue? [t] = some b := by
  unfold default?
  rw [hc]
  dsimp only
  rw [Expression.unwrap_single, Traced.outcome_bind, Traced.outcome_recordIf, booleanDefault?, if_pos hboolean, hd]
  dsimp only [Except.bind]
  cases Expression.truthValue? [t] with
  | some b' =>
    have hinj : Dialect.postgresql.boolean b' = Dialect.postgresql.boolean b ↔ b' = b := by
      cases b' <;> cases b <;> decide
    constructor
    · intro h
      rw [hinj.1 (Option.some.inj (Except.ok.inj h))]
    · intro h
      cases h
      rfl
  | none =>
    refine iff_of_false (fun h => ?_) (fun h => by cases h)
    obtain ⟨text, hrender, h⟩ := Traced.outcome_bind_ok h
    have htext : text = Expression.respell d.source .postgresql t :=
      (Except.ok.inj hrender).symm.trans (List.append_nil _)
    split at h
    · have hcurrent : "CURRENT_TIMESTAMP".toList = Dialect.postgresql.boolean b :=
        Option.some.inj (Except.ok.inj h)
      revert hcurrent
      cases b <;> decide
    · exact respell_literal ht hkind b (htext.symm.trans (Option.some.inj (Except.ok.inj h)))

end Direction

/-- Type and default agree on being boolean in PostgreSQL, for a column that is no
array, whose type is no `bit` but that of SQL Server, and whose type has no
parenthesis in its name. If its default is written by the rule for truth values, its
type is BOOLEAN. If its type is BOOLEAN, a default that is one literal is written as
TRUE or FALSE exactly if it stands for that truth value. -/
theorem boolean_type_default_agree (d : Direction) (sql : Text) (s : Statement) (c : Column)
    (hd : d.target = .postgresql) (hs : Statement.read sql = .ok s) (hc : c ∈ s.columns)
    (harray : c.isArray = false) (hparen : '(' ∉ c.baseType)
    (hbit : c.baseType = "bit".toList → d.source = .sqlserver ∧
      (c.typeParams.filter (· != ' ') = [] ∨ c.typeParams.filter (· != ' ') = "(1)".toList)) :
    (.booleanDefault ∈ (d.default? c).changes → (d.columnType? c).outcome = .ok (some "BOOLEAN".toList)) ∧
      ((d.columnType? c).outcome = .ok (some "BOOLEAN".toList) →
        ∀ t, c.default = some [t] → t.kind = .number ∨ t.kind = .string → ∀ b,
          ((d.default? c).outcome = .ok (some (Dialect.postgresql.boolean b)) ↔
            Expression.truthValue? [t] = some b)) := by
  obtain ⟨clause, hclause⟩ := Statement.column_of_read hs c hc
  have hagree : c.isBoolean = true ↔ BecomesBoolean d.source c.baseType (c.typeParams.filter (· != ' ')) := by
    rw [Column.isBoolean_iff, BecomesBoolean]
    refine or_congr_right (or_congr_right (or_congr_right (and_congr_right fun hbase => ?_)))
    exact iff_of_true (hbit hbase).2 (hbit hbase).1
  rw [Direction.columnType?_boolean_iff hd hclause harray hparen, ← hagree]
  refine ⟨Direction.isBoolean_of_booleanDefault, fun hboolean t ht hkind => ?_⟩
  obtain ⟨clause', hin⟩ := Statement.default_of_read hs c hc [t] ht t List.mem_cons_self
  exact Direction.default?_literal_iff hd hboolean ht hin hkind

/-- A small integer of one digit with a default of `no`. -/
theorem boolean_type_default_agree_no :
    let d : Direction := { source := .mysql, target := .postgresql }
    let t : Token := ⟨.string, "'no'".toList, 23, true⟩
    let c : Column := {
      name := ['a'], rawType := "tinyint(1)".toList, baseType := "tinyint".toList, typeParams := "(1)".toList
      tail := "DEFAULT 'no'".toList, default := some [t] }
    let s : Statement := ⟨⟨none, ['t']⟩, false, false, [c], [], []⟩
    Statement.read "CREATE TABLE t (a TINYINT( 1 ) DEFAULT 'no')" = .ok s ∧
      (d.columnType? c).outcome = .ok (some "BOOLEAN".toList) ∧
      ∀ b, ((d.default? c).outcome = .ok (some (Dialect.postgresql.boolean b)) ↔
        Expression.truthValue? [t] = some b) := by
  intro d t c s
  have hs : Statement.read "CREATE TABLE t (a TINYINT( 1 ) DEFAULT 'no')" = .ok s :=
    eq_ok_of_toOption (by decide +kernel)
  obtain ⟨htype, hdefault⟩ := boolean_type_default_agree d _ s c rfl hs List.mem_cons_self rfl (by decide)
    (fun h => absurd h (by decide))
  have hboolean := htype (by decide +kernel)
  exact ⟨hs, hboolean, hdefault hboolean t rfl (.inr rfl)⟩

/-- A default that stands for no truth value stays as it is behind BOOLEAN. -/
theorem boolean_default_stays :
    let d : Direction := { source := .mysql, target := .postgresql }
    ∃ s c t, Statement.read "CREATE TABLE t (a TINYINT(1) DEFAULT 2)" = .ok s ∧ c ∈ s.columns ∧
      (d.columnType? c).outcome = .ok (some "BOOLEAN".toList) ∧ c.default = some [t] ∧ t.kind = .number ∧
      (d.default? c).outcome = .ok (some ['2']) := by
  let t : Token := ⟨.number, ['2'], 21, true⟩
  let c : Column := {
    name := ['a'], rawType := "tinyint(1)".toList, baseType := "tinyint".toList, typeParams := "(1)".toList
    tail := "DEFAULT 2".toList, default := some [t] }
  refine ⟨⟨⟨none, ['t']⟩, false, false, [c], [], []⟩, c, t, eq_ok_of_toOption (by decide +kernel),
    List.mem_cons_self, eq_ok_of_toOption (by decide +kernel), rfl, rfl, eq_ok_of_toOption (by decide +kernel)⟩

end TableDialects
