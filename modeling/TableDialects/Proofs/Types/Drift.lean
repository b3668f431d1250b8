import TableDialects.Proofs.Types.Carried

/- Types that go back and forth between MySQL and PostgreSQL. A round trip may change a
   type: SERIAL comes back as INTEGER and INTEGER as BIGINT. But what was translated to
   PostgreSQL is a keyword of its table, such a keyword with parameters that both
   dialects carry, or a type that neither knows, and each of these is at rest after two
   round trips (`drift_stops`). -/
namespace TableDialects

def toPostgresql (t : Text) : Text := translateType (some .mysql) .postgresql t

def toMysql (t : Text) : Text := translateType (some .postgresql) .mysql t

/-- A type of PostgreSQL that went to MySQL and came back. -/
def roundTrip (t : Text) : Text := toPostgresql (toMysql t)

/-- A type of MySQL in PostgreSQL, after a number of round trips. -/
def drift (t : Text) : Nat → Text
  | 0 => toPostgresql t
  | k + 1 => roundTrip (drift t k)

def AtRest (t : Text) : Prop := roundTrip t = t

/-! ## Types that both dialects carry -/

/-- The keywords of PostgreSQL that take over parameters, and those of MySQL for the same
types. -/
def carriers : List (String × String) :=
  [("CHARACTER", "CHAR"), ("CHARACTER VARYING", "VARCHAR"), ("DECIMAL", "DECIMAL"), ("NUMERIC", "NUMERIC")]

def IsTaken (keyword : String) (p : Text) : Prop :=
  IsClosed p ∧ (takesAll keyword.toList = true ∨ takesNumbers keyword.toList = true ∧ isPrecision p = true)

/-- Whether the target has the keyword for a written name that no rule is about. -/
def isCarrier (target : Dialect) (written keyword : String) : Bool :=
  let b := Text.lower written.toList
  TypeParts.isBaseName b && b.head? != some 't' && written.toList.all (· != 'Σ') &&
    (ruledNames.all fun n => b != n.toList) && !keyword.toList.contains '(' &&
    tableValue? target.profile.types b == some keyword

theorem carriers_sound : ∀ e ∈ carriers,
    isCarrier .mysql e.1 e.2 = true ∧ isCarrier .postgresql e.2 e.1 = true ∧
      takesAll e.1.toList = takesAll e.2.toList ∧ takesNumbers e.1.toList = takesNumbers e.2.toList := by
  unfold isCarrier tableValue?
  rw [Text.toList_eq_ofBytes]
  decide +kernel

/-- A keyword with parameters has its name in lower case in the look-up. -/
theorem normalType_keyword {written b p : Text} (hsigma : ∀ c ∈ written, c ≠ 'Σ') (hlower : Text.lower written = b)
    (hb : TypeParts.IsBaseName b) (hp : IsClosed p) : normalType (written ++ p) = b ++ p := by
  have hboth : Text.lower (written ++ p) = b ++ p := by
    rw [lower_eq_flatMap (List.forall_mem_append.2 ⟨hsigma, fun c hc => (hp.settled c hc).2⟩), List.flatMap_append,
      ← lower_eq_flatMap hsigma, hlower, flatMap_lowerChar_eq_self fun c hc => (hp.settled c hc).1]
  unfold normalType
  rw [hboth, collapse_append hb.ne_nil hb.full, hb.collapsed, collapse_eq_self hp.full]
  exact hb.strip_append hp.full

theorem IsTaken.withParams {keyword : String} {p : Text} (hp : IsTaken keyword p)
    (hopen : keyword.toList.contains '(' = false) : withParams keyword.toList p = keyword.toList ++ p := by
  rcases hp.2 with hall | ⟨hnumbers, hprecision⟩
  · exact withParams_all hp.1.ne_nil hall
  · exact withParams_numbers hopen hnumbers hprecision

/-- A carrier becomes the keyword of the target with its parameters. -/
theorem translateType_carrier {source target : Dialect} (hsource : source ≠ .sqlserver) {written keyword : String}
    (h : isCarrier target written keyword = true) {p : Text} (hp : IsTaken keyword p) :
    translateType (some source) target (written.toList ++ p) = keyword.toList ++ p := by
  simp only [isCarrier, Bool.and_eq_true, bne_iff_ne, ne_eq, List.all_eq_true, Bool.not_eq_true', beq_iff_eq] at h
  obtain ⟨⟨⟨⟨⟨hbase, hhead⟩, hsigma⟩, hother⟩, hopen⟩, hkeyword⟩ := h
  have hb := TypeParts.isBaseName_of_check hbase
  have hname := normalType_keyword hsigma rfl hb hp.1
  have hzoned : TypeParts.zoned? (Text.lower written.toList ++ p) = none := by
    obtain ⟨c, v, heq⟩ := List.exists_cons_of_ne_nil hb.ne_nil
    rw [heq] at hhead ⊢
    exact zoned?_of_head (fun hc => hhead (congrArg some hc)) _
  have hsplit : TypeParts.split (normalType (written.toList ++ p)) = ⟨Text.lower written.toList, p⟩ := by
    rw [hname, TypeParts.split_name hb hzoned hp.1.params?, hp.1.filter_eq_self]
  have hunlisted : IsUnlisted (Text.lower written.toList) p := fun heq => absurd heq (hother "tinyint" (by decide))
  have hstamp : (Text.after? "timestamp" (Text.lower written.toList)).isSome = false := by
    obtain ⟨c, v, heq⟩ := List.exists_cons_of_ne_nil hb.ne_nil
    rw [heq] at hhead ⊢
    exact congrArg Option.isSome (if_neg fun hc => hhead (congrArg some hc.symm))
  rw [translateType_closed hb hp.1 hunlisted hsplit ?_ hkeyword, hp.withParams hopen]
  rintro s hs
  cases hs
  exact sourceRule?_unruled target (fun n hn => beq_eq_false_iff_ne.2 (hother n hn)) hstamp
    (fun hs => absurd hs hsource) _

theorem atRest_carried {e : String × String} (he : e ∈ carriers) {p : Text} (hp : IsTaken e.1 p) :
    AtRest (e.1.toList ++ p) := by
  obtain ⟨hto, hback, hall, hnumbers⟩ := carriers_sound e he
  have hp' : IsTaken e.2 p := by
    unfold IsTaken at hp ⊢
    rwa [← hall, ← hnumbers]
  unfold AtRest roundTrip toMysql toPostgresql
  rw [translateType_carrier (by decide) hto hp', translateType_carrier (by decide) hback hp]

/-! ## Keywords -/

/-- The keywords of PostgreSQL, each with the type that MySQL has for it and what that
comes back as. -/
def keywordTrips : List (String × String × String) := [
  ("BIGINT", "BIGINT", "BIGINT"), ("INTEGER", "BIGINT", "BIGINT"), ("SMALLINT", "SMALLINT", "INTEGER"),
  ("BIGSERIAL", "BIGINT", "BIGINT"), ("SERIAL", "INT", "INTEGER"), ("SMALLSERIAL", "SMALLINT", "INTEGER"),
  ("REAL", "DOUBLE", "DOUBLE PRECISION"), ("DOUBLE PRECISION", "DOUBLE", "DOUBLE PRECISION"),
  ("DECIMAL", "DECIMAL", "DECIMAL"), ("DECIMAL(19,4)", "DECIMAL(19,4)", "DECIMAL(19,4)"),
  ("NUMERIC", "NUMERIC", "NUMERIC"), ("NUMERIC(10,4)", "NUMERIC(10,4)", "NUMERIC(10,4)"),
  ("MONEY", "DECIMAL(19,4)", "DECIMAL(19,4)"), ("BIT", "BIT", "BIT"), ("BOOLEAN", "TINYINT(1)", "BOOLEAN"),
  ("CHARACTER", "CHAR", "CHARACTER"), ("CHARACTER VARYING", "VARCHAR", "CHARACTER VARYING"),
  ("CHARACTER(36)", "CHAR(36)", "CHARACTER(36)"), ("UUID", "CHAR(36)", "CHARACTER(36)"),
  ("TEXT", "TEXT", "TEXT"), ("CITEXT", "TEXT", "TEXT"), ("XML", "TEXT", "TEXT"), ("JSONB", "JSON", "JSONB"),
  ("BYTEA", "LONGBLOB", "BYTEA"), ("TIMESTAMP WITH TIME ZONE", "TIMESTAMP", "TIMESTAMP WITH TIME ZONE"),
  ("TIMESTAMP WITHOUT TIME ZONE", "DATETIME", "TIMESTAMP WITHOUT TIME ZONE"), ("DATE", "DATE", "DATE"),
  ("TIME", "TIME", "TIME"), ("TIME WITH TIME ZONE", "TIME", "TIME"), ("TIME WITHOUT TIME ZONE", "TIME", "TIME")]

theorem keywordTrips_sound : ∀ e ∈ keywordTrips,
    toMysql e.1.toList = e.2.1.toList ∧ toPostgresql e.2.1.toList = e.2.2.toList := by decide +kernel

theorem roundTrip_keyword {e : String × String × String} (he : e ∈ keywordTrips) :
    roundTrip e.1.toList = e.2.2.toList := by
  obtain ⟨hto, hback⟩ := keywordTrips_sound e he
  rw [roundTrip, hto, hback]

/-- What comes back is a keyword that comes back as one at rest. -/
theorem keywordTrips_rest : ∀ e ∈ keywordTrips, ∃ f ∈ keywordTrips, f.1 = e.2.2 ∧
    ∃ g ∈ keywordTrips, g.1 = f.2.2 ∧ g.2.2 = g.1 := by decide +kernel

theorem atRest_keyword {e : String × String × String} (he : e ∈ keywordTrips) :
    AtRest (roundTrip (roundTrip e.1.toList)) := by
  obtain ⟨f, hf, hfe, g, hg, hgf, hrest⟩ := keywordTrips_rest e he
  unfold AtRest
  rw [roundTrip_keyword he, ← hfe, roundTrip_keyword hf, ← hgf, roundTrip_keyword hg, hrest]

/-! ## Parameters of a type in the form of the look-up -/

namespace TypeParts

theorem closed_of_params? {s p : Text} (h : params? s = some p) : p = [] ∨ ∃ m, p = '(' :: (m ++ [')']) := by
  unfold params? at h
  split at h
  · exact .inl (Option.some.inj h).symm
  · dsimp only at h
    split at h
    · rename_i hline
      rw [Bool.and_eq_true, beq_iff_eq] at hline
      obtain ⟨m, hm⟩ := List.getLast?_eq_some_iff.1 hline.1
      exact .inr ⟨m, by rw [← Option.some.inj h, hm]⟩
    · cases h
  · cases h

/-- A type that is no zoned time has closed parameters, if it has any. -/
theorem split_params {n : Text} (hn : IsNormalName n) :
    (∃ z ∈ zonedNames, (split n).base = z.toList) ∨ (split n).params = [] ∨ IsClosed (split n).params := by
  unfold split
  cases hzoned : zoned? n with
  | some parts => exact .inl (zoned?_base hzoned)
  | none =>
    refine .inr ?_
    cases hplain : plain? n with
    | none => exact .inl rfl
    | some parts =>
      obtain ⟨rest, htext, -, hrest⟩ := plain?_eq_some hplain
      have hin : ∀ c ∈ parts.params, c ∈ n := by
        intro c hc
        obtain ⟨w, -, ⟨hnil, -⟩ | ⟨line, tail, hline, hrest, -⟩⟩ := params?_eq_some hrest
        · rw [hnil] at hc
          cases hc
        · rw [htext, hrest]
          rw [hline] at hc
          rcases List.mem_cons.1 hc with rfl | hc <;> simp [*]
      have hnormal : IsNormalParams parts.params :=
        ⟨closed_of_params? hrest, fun c hc => hn.settled c (hin c hc), fun c hc => hn.eq_space (hin c hc)⟩
      dsimp only
      by_cases hnil : parts.params = []
      · exact .inl (by rw [hnil]; rfl)
      · exact .inr (hnormal.isClosed hnil)

end TypeParts

theorem isClosed_of_isPrecision {p : Text} (h : isPrecision p = true) : IsClosed p := by
  have hdigit : ∀ s : Text, ∀ c ∈ s.takeWhile Text.isDigit, Text.Settled c ∧ Text.isBlank c = false := by
    intro s c hc
    have hc := List.mem_takeWhile_imp hc
    exact ⟨⟨Text.lowerChar_of_isDigit hc, by rintro rfl; cases hc⟩, isBlank_of_isDigit hc⟩
  have hmark : ∀ c ∈ ['(', ',', ')'], Text.Settled c ∧ Text.isBlank c = false := by decide
  suffices h : ∃ m, p = '(' :: (m ++ [')']) ∧ ∀ c ∈ m, Text.Settled c ∧ Text.isBlank c = false by
    obtain ⟨m, rfl, hm⟩ := h
    have hall : ∀ c ∈ '(' :: (m ++ [')']), Text.Settled c ∧ Text.isBlank c = false := by
      simpa using ⟨hmark '(' (by decide), fun c hc => hc.elim (hm c) fun h => h ▸ hmark ')' (by decide)⟩
    exact ⟨⟨m, rfl⟩, fun c hc => (hall c hc).1, fun c hc => (hall c hc).2⟩
  unfold isPrecision at h
  split at h
  · rename_i s
    dsimp only at h
    rw [Bool.and_eq_true, Bool.or_eq_true, beq_iff_eq] at h
    have hs := List.takeWhile_append_dropWhile (p := Text.isDigit) (l := s)
    rcases h.2 with hclose | hcomma
    · exact ⟨_, by rw [← hclose, hs], hdigit s⟩
    · split at hcomma
      · rename_i r hr
        rw [Bool.and_eq_true, beq_iff_eq] at hcomma
        refine ⟨s.takeWhile Text.isDigit ++ ',' :: r.takeWhile Text.isDigit, ?_, ?_⟩
        · rw [List.append_assoc, List.cons_append, ← hcomma.2, List.takeWhile_append_dropWhile, ← hr, hs]
        · exact List.forall_mem_append.2 ⟨hdigit s, List.forall_mem_cons.2 ⟨hmark ',' (by decide), hdigit r⟩⟩
      · cases hcomma
  · cases h

/-! ## What a translated type can be -/

/-- What a type becomes in PostgreSQL: a keyword, a keyword with parameters that both
dialects carry, or a name that is in no table. -/
inductive Landed : Text → Prop
  | keyword {e : String × String × String} : e ∈ keywordTrips → Landed e.1.toList
  | carried {e : String × String} {p : Text} : e ∈ carriers → IsTaken e.1 p → Landed (e.1.toList ++ p)
  | unknown {n : Text} : IsNormalName n → IsAscii n →
      sourceRule? .mysql .postgresql (TypeParts.split n) n = none →
      tableType? .postgresql (TypeParts.split n) = none → Landed (Text.upper n)

theorem landed_of_mem {k : String} (h : k ∈ keywordTrips.map Prod.fst) : Landed k.toList := by
  obtain ⟨e, he, rfl⟩ := List.mem_map.1 h
  exact .keyword he

/-- The keywords of the table, and those among them that take over parameters. -/
theorem postgresqlTypes_carry : ∀ e ∈ postgresqlTypes, e.2 ∈ keywordTrips.map Prod.fst ∧
    (takesAll e.2.toList = true → e.1 ∈ characterTypes ∧ e.2 ∈ carriers.map Prod.fst) ∧
    (takesNumbers e.2.toList = true → ∃ c ∈ carriers, takesNumbers c.1.toList = true ∧
      e.2.toList.takeWhile (· != '(') = c.1.toList) := by
  rw [Text.toList_eq_ofBytes]
  decide +kernel

theorem withParams_cases (k p : Text) : withParams k p = k ∨
    p ≠ [] ∧ takesAll k = true ∧ withParams k p = k ++ p ∨
    isPrecision p = true ∧ takesNumbers k = true ∧ withParams k p = k.takeWhile (· != '(') ++ p := by
  unfold withParams takesAll takesNumbers
  by_cases hp : p.isEmpty = true
  · exact .inl (if_pos hp)
  rw [if_neg hp]
  have hne : p ≠ [] := by simpa using hp
  cases hopen : k.contains '(' with
  | true =>
    rw [if_pos rfl, if_pos rfl]
    split
    · rename_i h
      rw [Bool.and_eq_true] at h
      exact .inr (.inr ⟨h.2, h.1, rfl⟩)
    · exact .inl rfl
  | false =>
    rw [if_neg Bool.false_ne_true, if_neg Bool.false_ne_true]
    split
    · rename_i h
      exact .inr (.inl ⟨hne, h, rfl⟩)
    · split
      · rename_i h
        rw [Bool.and_eq_true] at h
        have hall : k.takeWhile (· != '(') = k := by
          rw [List.takeWhile_eq_self_iff]
          intro c hc
          rw [bne_iff_ne]
          rintro rfl
          rw [List.contains_iff_mem.2 hc] at hopen
          cases hopen
        exact .inr (.inr ⟨h.2, h.1, by rw [hall]⟩)
      · exact .inl rfl

theorem landed_withParams {e : String × String} (he : e ∈ postgresqlTypes) {p : Text}
    (hp : e.1 ∈ characterTypes → p = [] ∨ IsClosed p) : Landed (withParams e.2.toList p) := by
  obtain ⟨hkeyword, hall, hnumbers⟩ := postgresqlTypes_carry e he
  rcases withParams_cases e.2.toList p with h | ⟨hne, htakes, h⟩ | ⟨hprecision, htakes, h⟩ <;> rw [h]
  · exact landed_of_mem hkeyword
  · obtain ⟨hname, hcarrier⟩ := hall htakes
    obtain ⟨c, hc, hkey⟩ := List.mem_map.1 hcarrier
    rw [← hkey] at htakes ⊢
    exact .carried hc ⟨(hp hname).resolve_left hne, .inl htakes⟩
  · obtain ⟨c, hc, htakes, hkey⟩ := hnumbers htakes
    rw [hkey]
    exact .carried hc ⟨isClosed_of_isPrecision hprecision, .inr ⟨htakes, hprecision⟩⟩

/-- The name of a zoned time is no start of the name of a character type. -/
theorem not_zoned_character : ∀ z ∈ TypeParts.zonedNames, ∀ b ∈ characterTypes,
    b.toList.head? ≠ (Text.strip (Text.lower z.toList)).head? ∧ Text.strip (Text.lower z.toList) ≠ [] := by
  decide +kernel

theorem landed_tableType {n u : Text} (hn : IsNormalName n)
    (h : tableType? .postgresql (TypeParts.split n) = some u) : Landed u := by
  unfold tableType? at h
  dsimp only at h
  split at h
  · cases h
  · rename_i k hlookup
    obtain ⟨e, he, rfl, hname⟩ := lookupType_eq_some hlookup
    split at h
    · rw [← Option.some.inj h]
      exact landed_of_mem (postgresqlTypes_carry e he).1
    · rw [← Option.some.inj h]
      -- The parameters of a zoned time need not be closed, but its name is no character type.
      refine landed_withParams he fun hcharacter => (TypeParts.split_params hn).resolve_left ?_
      rintro ⟨z, hz, hbase⟩
      obtain ⟨hhead, hne⟩ := not_zoned_character z hz e.1 hcharacter
      refine hhead ?_
      rw [hbase] at hname
      rcases hname with hname | hname
      · obtain ⟨c, v, hcons⟩ := List.exists_cons_of_ne_nil hne
        rw [hname, hcons]
        rfl
      · rw [hname]

theorem landed_toPostgresql {t : Text} (ht : IsAscii t) : Landed (toPostgresql t) := by
  unfold toPostgresql translateType
  dsimp only
  rw [Option.bind_some]
  cases hrule : sourceRule? .mysql .postgresql (TypeParts.split (normalType t)) (normalType t) with
  | some k =>
    -- Each rule of MySQL gives one of the keywords.
    have hk : k ∈ keywordTrips.map Prod.fst := by
      unfold sourceRule? at hrule
      dsimp only at hrule
      repeat' split at hrule
      all_goals cases hrule
      all_goals decide
    exact landed_of_mem hk
  | none =>
    cases htable : tableType? .postgresql (TypeParts.split (normalType t)) with
    | some u => exact landed_tableType (isNormalName_normalType t) htable
    | none => exact .unknown (isNormalName_normalType t) ht.normalType hrule htable

/-! ## Names that are in no table -/

theorem lookupType_of_name {α : Type} {table : List (String × α)} {base : Text} {v : α}
    (h : tableValue? table (Text.strip (Text.lower base)) = some v) (params : Text) :
    ∃ v, lookupType table base params = some v := by
  unfold lookupType
  dsimp only
  split
  · exact ⟨_, rfl⟩
  · exact ⟨v, h⟩

/-- A type that one table has is found in each table that lists the same names. -/
theorem lookupType_mono {α : Type} {table table' : List (String × α)} (hnames : table.map Prod.fst ⊆ table'.map Prod.fst)
    {base params : Text} {v : α} (h : lookupType table base params = some v) :
    ∃ v, lookupType table' base params = some v := by
  obtain ⟨e, he, -, hname⟩ := lookupType_eq_some h
  obtain ⟨v', hv'⟩ := tableValue?_of_mem (hnames (List.mem_map_of_mem he))
  rcases hname with hname | hname <;> rw [hname] at hv'
  · cases hparams : (Text.lower (params.filter (· != ' '))).isEmpty with
    | true =>
      rw [List.isEmpty_iff.1 hparams, List.append_nil] at hv'
      exact lookupType_of_name hv' params
    | false =>
      unfold lookupType
      dsimp only
      rw [hparams, if_neg Bool.false_ne_true, hv']
      exact ⟨v', rfl⟩
  · exact lookupType_of_name hv' params

theorem tableType?_eq_none {target : Dialect} {parts : TypeParts} :
    tableType? target parts = none ↔ lookupType target.profile.types parts.base parts.params = none := by
  unfold tableType?
  dsimp only
  cases lookupType target.profile.types parts.base parts.params with
  | none => exact ⟨fun _ => rfl, fun _ => rfl⟩
  | some k =>
    dsimp only
    split <;> constructor <;> intro h <;> cases h

theorem mysqlTypes_subset : mysqlTypes.map Prod.fst ⊆ postgresqlTypes.map Prod.fst := by decide +kernel

/-- The names other than those of times that PostgreSQL has rules for. -/
def postgresqlRuled : List String := ["serial", "bigserial", "boolean", "bool", "jsonb"]

theorem postgresqlRuled_known : ∀ b ∈ postgresqlRuled, b ∈ postgresqlTypes.map Prod.fst ∧
    Text.strip (Text.lower b.toList) = b.toList := by decide +kernel

theorem sourceRule?_to_mysql {parts : TypeParts} {n : Text} {k : String}
    (h : sourceRule? .postgresql .mysql parts n = some k) :
    (∃ b ∈ postgresqlRuled, parts.base = b.toList) ∨ k = "TIMESTAMP" ∨ k = "DATETIME" := by
  unfold sourceRule? at h
  dsimp only at h
  split at h
  · rename_i hbase
    rw [Bool.or_eq_true, beq_iff_eq, beq_iff_eq] at hbase
    exact .inl (hbase.elim (fun h => ⟨_, by decide, h⟩) fun h => ⟨_, by decide, h⟩)
  split at h
  · rename_i hbase
    rw [Bool.or_eq_true, beq_iff_eq, beq_iff_eq] at hbase
    exact .inl (hbase.elim (fun h => ⟨_, by decide, h⟩) fun h => ⟨_, by decide, h⟩)
  split at h
  · rename_i hbase
    exact .inl ⟨_, by decide, beq_iff_eq.1 hbase⟩
  refine .inr ?_
  split at h
  · split at h
    · exact .inl (Option.some.inj h).symm
    · split at h
      · exact .inr (Option.some.inj h).symm
      · cases h
  · cases h

/-- A name that PostgreSQL does not have stays as it is, or is a time. -/
theorem toMysql_unknown {n : Text} (hn : IsNormalName n) (hascii : IsAscii n)
    (htable : tableType? .postgresql (TypeParts.split n) = none) :
    toMysql (Text.upper n) = Text.upper n ∨ toMysql (Text.upper n) = "TIMESTAMP".toList ∨
      toMysql (Text.upper n) = "DATETIME".toList := by
  rw [tableType?_eq_none] at htable
  unfold toMysql translateType
  dsimp only
  rw [Option.bind_some, hn.normalType_upper hascii]
  cases hrule : sourceRule? .postgresql .mysql (TypeParts.split n) n with
  | some k =>
    rcases sourceRule?_to_mysql hrule with ⟨b, hb, hbase⟩ | rfl | rfl
    · obtain ⟨hknown, hstrip⟩ := postgresqlRuled_known b hb
      obtain ⟨v, hv⟩ := tableValue?_of_mem hknown
      rw [← hstrip, ← hbase] at hv
      obtain ⟨v', hv'⟩ := lookupType_of_name hv (TypeParts.split n).params
      cases htable.symm.trans hv'
    · exact .inr (.inl rfl)
    · exact .inr (.inr rfl)
  | none =>
    -- Each name that MySQL lists is one that PostgreSQL lists.
    have hmysql : tableType? .mysql (TypeParts.split n) = none := by
      rw [tableType?_eq_none]
      cases hlookup : lookupType mysqlTypes (TypeParts.split n).base (TypeParts.split n).params with
      | none => exact hlookup
      | some v =>
        obtain ⟨v', hv'⟩ := lookupType_mono mysqlTypes_subset hlookup
        cases htable.symm.trans hv'
    rw [hmysql]
    exact .inl rfl

theorem toPostgresql_unknown {n : Text} (hn : IsNormalName n) (hascii : IsAscii n)
    (hrule : sourceRule? .mysql .postgresql (TypeParts.split n) n = none)
    (htable : tableType? .postgresql (TypeParts.split n) = none) : toPostgresql (Text.upper n) = Text.upper n := by
  unfold toPostgresql translateType
  dsimp only
  rw [Option.bind_some, hn.normalType_upper hascii, hrule, htable]

/-! ## Coming to rest -/

theorem AtRest.roundTrip {t : Text} (h : AtRest t) : AtRest (roundTrip t) := by
  unfold AtRest at h ⊢
  rw [h, h]

theorem Landed.atRest {t : Text} (h : Landed t) : AtRest (roundTrip (roundTrip t)) := by
  cases h with
  | keyword he => exact atRest_keyword he
  | carried he hp => exact (atRest_carried he hp).roundTrip.roundTrip
  | unknown hn hascii hrule htable =>
    -- The two keywords of the times are those that a zoned time has in MySQL.
    have htime : ∀ e ∈ keywordTrips, e.2.2 = e.1 → AtRest (toPostgresql e.2.1.toList) := by
      intro e he hrest
      have hback := roundTrip_keyword he
      rw [← hrest] at hback
      rw [(keywordTrips_sound e he).2]
      exact hback
    refine AtRest.roundTrip ?_
    rw [roundTrip]
    rcases toMysql_unknown hn hascii htable with h | h | h <;> rw [h]
    · rw [toPostgresql_unknown hn hascii hrule htable, AtRest, TableDialects.roundTrip, h,
        toPostgresql_unknown hn hascii hrule htable]
    · exact htime ("TIMESTAMP WITH TIME ZONE", "TIMESTAMP", "TIMESTAMP WITH TIME ZONE") (by decide) rfl
    · exact htime ("TIMESTAMP WITHOUT TIME ZONE", "DATETIME", "TIMESTAMP WITHOUT TIME ZONE") (by decide) rfl

theorem drift_of_atRest {t : Text} {k : Nat} (h : AtRest (drift t k)) (j : Nat) : drift t (k + j) = drift t k := by
  induction j with
  | zero => rfl
  | succ j ih =>
    rw [← Nat.add_assoc, drift, ih]
    exact h

/-- From the second round trip on, a type of MySQL stays what it is in PostgreSQL. -/
theorem drift_stops (t : Text) (ht : IsAscii t) (k : Nat) (hk : 2 ≤ k) : drift t k = drift t 2 := by
  obtain ⟨j, rfl⟩ := Nat.exists_eq_add_of_le hk
  have hrest : AtRest (drift t 2) := by
    rw [drift, drift, drift]
    exact (landed_toPostgresql ht).atRest
  exact drift_of_atRest hrest j

/-- Two round trips are needed. -/
theorem drift_stops_serial : drift "SERIAL".toList 1 ≠ drift "SERIAL".toList 2 ∧
    drift "SERIAL".toList 3 = drift "SERIAL".toList 2 :=
  ⟨by decide +kernel, drift_stops _ (by decide) 3 (by decide)⟩

end TableDialects
