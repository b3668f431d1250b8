import TableDialects.Proofs.Decimal.Numeral
import TableDialects.Proofs.Translate.Key
import TableDialects.Proofs.Translate.Type
import TableDialects.Proofs.Types.Carried

/- Lengths of character types. A character type with a length, in any letter case and
   with any white space, becomes the keyword of the target with that length
   (`translateType_spelling`). SQL Server has a limit for the varying ones: a column
   keeps a length up to it and has no limit beyond (`columnType?_varying`). -/
namespace TableDialects

/-! ## Types in any spelling -/

/-- The type with the length, in any letter case and with any white space around the
name, its words and the length. -/
def SpellsType (name : String) (length t : Text) : Prop :=
  ∃ before words between inside behind after : Text,
    t = before ++ (words ++ (between ++ '(' :: (inside ++ (length ++ (behind ++ [')']))))) ++ after ∧
    SpellsWords (Text.words name.toList) words ∧ IsGap before ∧ IsGap between ∧ IsGap inside ∧
    IsGap behind ∧ IsGap after

/-- A length: ASCII digits, one at least. -/
structure IsLength (n : Text) : Prop where
  ne_nil : n ≠ []
  digits : ∀ c ∈ n, Numeral.isAsciiDigit c = true

theorem isAsciiWord_character : ∀ b ∈ characterTypes,
    (∀ w ∈ Text.words b.toList, w ≠ [] ∧ ∀ c ∈ w, Text.isBlank c = false ∧ c.toNat < 128) ∧
      Text.join [' '] (Text.words b.toList) = b.toList := by decide +kernel

namespace IsLength
variable {n : Text}

theorem settled (hn : IsLength n) : ∀ c ∈ n, Text.Settled c := fun c hc =>
  Numeral.of_isAsciiDigit (p := Text.Settled) (by decide) (hn.digits c hc)

theorem full (hn : IsLength n) : ∀ c ∈ n, Text.isBlank c = false := fun c hc =>
  Numeral.of_isAsciiDigit (p := fun c => Text.isBlank c = false) (by decide) (hn.digits c hc)

theorem isClosed (hn : IsLength n) : IsClosed ('(' :: (n ++ [')'])) where
  closed := ⟨n, rfl⟩
  settled := List.forall_mem_cons.2 ⟨by decide, List.forall_mem_append.2 ⟨hn.settled, by decide⟩⟩
  full := List.forall_mem_cons.2 ⟨by decide, List.forall_mem_append.2 ⟨hn.full, by decide⟩⟩

theorem ne_max (hn : IsLength n) : '(' :: (n ++ [')']) ≠ "(max)".toList := by
  intro h
  obtain ⟨c, m, rfl⟩ := List.exists_cons_of_ne_nil hn.ne_nil
  have hc : c = 'm' := (List.cons.inj (List.cons.inj h).2).1
  exact absurd (hn.digits c List.mem_cons_self) (by rw [hc]; decide)

/-- A length in parentheses is settled, with any white space around it. -/
theorem settled_spaced (hn : IsLength n) {between inside behind : Text} (hbetween : IsGap between)
    (hinside : IsGap inside) (hbehind : IsGap behind) :
    ∀ c ∈ between ++ '(' :: (inside ++ (n ++ (behind ++ [')']))), Text.Settled c := by
  have hbehind' := List.forall_mem_append.2 ⟨hbehind.settled, (by decide : ∀ c ∈ [')'], Text.Settled c)⟩
  have hinside' := List.forall_mem_append.2 ⟨hinside.settled, List.forall_mem_append.2 ⟨hn.settled, hbehind'⟩⟩
  exact List.forall_mem_append.2 ⟨hbetween.settled, List.forall_mem_cons.2 ⟨by decide, hinside'⟩⟩

/-- White space around a length in parentheses is collapsed on its own. -/
theorem collapse_spaced (hn : IsLength n) (between inside behind : Text) :
    Text.collapse (between ++ '(' :: (inside ++ (n ++ (behind ++ [')'])))) =
      Text.collapse between ++ '(' :: (Text.collapse inside ++ (n ++ (Text.collapse behind ++ [')']))) := by
  have hdigits : Stops Text.isBlank (n ++ (behind ++ [')'])) := by
    obtain ⟨c, m, rfl⟩ := List.exists_cons_of_ne_nil hn.ne_nil
    exact stops_cons.2 (hn.full c List.mem_cons_self)
  calc Text.collapse (between ++ '(' :: (inside ++ (n ++ (behind ++ [')']))))
      = Text.collapse between ++ Text.collapse ('(' :: (inside ++ (n ++ (behind ++ [')'])))) :=
        collapse_append_starts _ (stops_cons.2 (by decide))
    _ = Text.collapse between ++ '(' :: Text.collapse (inside ++ (n ++ (behind ++ [')']))) := rfl
    _ = _ := by
        rw [collapse_append_starts _ hdigits, collapse_append hn.ne_nil fun c hc => hn.full c (List.mem_of_getLast? hc),
          collapse_eq_self hn.full, collapse_append_starts _ (stops_cons.2 (by decide))]
        rfl

/-- The parameters in the form of the look-up, with at most a space on both sides of
the length. -/
theorem split_spaced (hn : IsLength n) {b : Text} (hb : TypeParts.IsBaseName b)
    (hzoned : ∀ s, TypeParts.zoned? (b ++ s) = none) {between inside behind : Text}
    (hbetween : ∀ c ∈ between, c = ' ') (hinside : ∀ c ∈ inside, c = ' ') (hbehind : ∀ c ∈ behind, c = ' ') :
    TypeParts.split (b ++ (between ++ '(' :: (inside ++ (n ++ (behind ++ [')']))))) = ⟨b, '(' :: (n ++ [')'])⟩ := by
  have hblank : ∀ c ∈ between, Text.isBlank c = true := fun c hc => by rw [hbetween c hc]; decide
  have hline : ∀ c ∈ inside ++ (n ++ behind), c ≠ '\n' := by
    refine List.forall_mem_append.2 ⟨fun c hc => ?_, List.forall_mem_append.2 ⟨fun c hc => ?_, fun c hc => ?_⟩⟩
    · rw [hinside c hc]; decide
    · rintro rfl
      exact absurd (hn.full _ hc) (by decide)
    · rw [hbehind c hc]; decide
  have hparams : TypeParts.params? (between ++ '(' :: (inside ++ (n ++ (behind ++ [')'])))) =
      some ('(' :: (inside ++ (n ++ behind) ++ [')'])) := by
    have hstop : Stops Text.isBlank ('(' :: (inside ++ (n ++ behind) ++ [')'])) := stops_cons.2 (by decide)
    have hself := TypeParts.params?_closed hline
    have hskip : ∀ q, Stops Text.isBlank q → TypeParts.params? (between ++ q) = TypeParts.params? q := by
      intro q hq
      have hdrop := hq.dropWhile_append (v := []) (List.forall_mem_nil _)
      rw [List.nil_append] at hdrop
      rw [TypeParts.params?, TypeParts.params?, hq.dropWhile_append hblank, hdrop]
    simpa only [List.append_assoc] using (hskip _ hstop).trans hself
  have hnone : ∀ {s : Text}, (∀ c ∈ s, c = ' ') → s.filter (· != ' ') = [] := fun hs =>
    List.filter_eq_nil_iff.2 fun c hc => by simp [hs c hc]
  rw [TypeParts.split_name hb (hzoned _) hparams]
  have hkept := hn.isClosed.filter_eq_self
  simp only [List.filter_cons, List.filter_append, hnone hinside, hnone hbehind] at hkept ⊢
  simpa using hkept

end IsLength

/-- However a character type with a length is spelled, it is looked up by its name, with
the length as its parameters. -/
theorem split_spelling {b : String} (hb : b ∈ characterTypes) {n t : Text} (hn : IsLength n)
    (ht : SpellsType b n t) : TypeParts.split (normalType t) = ⟨b.toList, '(' :: (n ++ [')'])⟩ := by
  obtain ⟨before, words, between, inside, behind, after, rfl, hwords, hbefore, hbetween, hinside, hbehind, hafter⟩ := ht
  obtain ⟨hword, hjoin⟩ := isAsciiWord_character b hb
  obtain ⟨hsigma, hfull, hne, hcollapse⟩ := hwords.collapse_lower hword
  rw [hjoin] at hcollapse
  generalize hlow : words.flatMap Text.lowerChar = low at hfull hne hcollapse
  -- Only the words change in lower case: what stands around them is settled.
  have hparams := hn.settled_spaced hbetween hinside hbehind
  have hlower : Text.lower (before ++ (words ++ (between ++ '(' :: (inside ++ (n ++ (behind ++ [')']))))) ++ after) =
      before ++ (low ++ (between ++ '(' :: (inside ++ (n ++ (behind ++ [')']))))) ++ after := by
    have hself : ∀ {s : Text}, (∀ c ∈ s, Text.Settled c) → s.flatMap Text.lowerChar = s := fun hs =>
      flatMap_lowerChar_eq_self fun c hc => (hs c hc).1
    have hsettled : ∀ {s : Text}, (∀ c ∈ s, Text.Settled c) → ∀ c ∈ s, c ≠ 'Σ' := fun hs c hc => (hs c hc).2
    rw [lower_eq_flatMap (List.forall_mem_append.2 ⟨List.forall_mem_append.2 ⟨hsettled hbefore.settled,
        List.forall_mem_append.2 ⟨hsigma, hsettled hparams⟩⟩, hsettled hafter.settled⟩),
      List.flatMap_append, List.flatMap_append, List.flatMap_append, hself hbefore.settled, hself hafter.settled,
      hself hparams, hlow]
  have hwhole : IsFull (low ++ (between ++ '(' :: (inside ++ (n ++ (behind ++ [')']))))) := by
    refine ⟨?_, ?_⟩
    · obtain ⟨c, v, rfl⟩ := List.exists_cons_of_ne_nil hne
      exact stops_cons.2 (stops_cons.1 hfull.starts)
    · simp only [← List.append_assoc, ← List.cons_append, List.getLast?_concat]
      exact fun c hc => Option.some.inj hc ▸ by decide
  have hhead : ∀ b ∈ characterTypes, b.toList ≠ [] ∧ b.toList.head? ≠ some 't' := by decide
  obtain ⟨hbne, hbhead⟩ := hhead b hb
  rw [normalType_of_gaps hlower hbefore hafter hwhole, collapse_append hne hfull.ends, hcollapse, hn.collapse_spaced]
  refine hn.split_spaced (TypeParts.isBaseName_of_check (isBaseName_character b hb)) (fun s => ?_)
    (isGap_collapse hbetween) (isGap_collapse hinside) (isGap_collapse hbehind)
  obtain ⟨c, v, heq⟩ := List.exists_cons_of_ne_nil hbne
  rw [heq] at hbhead ⊢
  exact zoned?_of_head (fun h => hbhead (congrArg some h)) _

/-- A character type with a length, in any spelling, becomes the keyword of the target
with that length. -/
theorem translateType_spelling (source : Option Dialect) (target : Dialect) {b : String}
    (hb : b ∈ characterTypes) {n t : Text} (hn : IsLength n) (ht : SpellsType b n t) :
    ∃ keyword, tableValue? target.profile.types b.toList = some keyword ∧
      translateType source target t = keyword.toList ++ '(' :: (n ++ [')']) :=
  translateType_character target hb hn.isClosed (split_spelling hb hn ht) fun _ => hn.ne_max

/-- The name of a character type with the length directly behind it. -/
theorem spellsType_self {b : String} (hb : b ∈ characterTypes) (n : Text) :
    SpellsType b n (b.toList ++ '(' :: (n ++ [')'])) := by
  have hgap : IsGap [] := List.forall_mem_nil _
  refine ⟨[], b.toList, [], [], [], [], by simp, ?_, hgap, hgap, hgap, hgap, hgap⟩
  simp only [characterTypes, List.mem_cons, List.not_mem_nil, or_false] at hb
  rcases hb with rfl | rfl | rfl | rfl | rfl | rfl
  · exact .last (by decide)
  · exact .last (by decide)
  · exact .last (by decide)
  · exact .last (by decide)
  · exact .last (by decide)
  · exact .more (s := "character".toList) (g := [' ']) (t := "varying".toList) (by decide) (by decide) (by decide)
      (.last (by decide))

/-! ## Columns in SQL Server -/

def varyingTypes : List String := ["varchar", "nvarchar", "character varying"]

/-- The type in SQL Server of varying characters with a length: without a limit if it
is beyond 4000. -/
def nvarchar (n : Text) : Text :=
  if Numeral.ofDigits n ≤ 4000 then "NVARCHAR(".toList ++ n ++ [')'] else "NVARCHAR(MAX)".toList

namespace Direction
variable {n : Text}

theorem toInt?_length (hn : IsLength n) (hlimit : n.length ≤ Numeral.digitLimit) :
    Numeral.toInt? n = some (Numeral.ofDigits n : Int) := by
  have h := Numeral.toInt?_signed hn.ne_nil hn.digits false
  rwa [if_neg (Nat.not_lt.2 hlimit)] at h

theorem outcome_limitLength_nvarchar (hn : IsLength n) (hlimit : n.length ≤ Numeral.digitLimit) :
    (limitLength ("NVARCHAR".toList ++ '(' :: (n ++ [')']))).outcome = .ok (nvarchar n) := by
  have hdigit : ∀ c ∈ n, Text.isDigit c = true := fun c hc =>
    Numeral.of_isAsciiDigit (p := fun c => Text.isDigit c = true) (by decide) (hn.digits c hc)
  have hstop : Stops Text.isDigit [')'] := stops_cons.2 (by decide)
  have hdigits : lengthDigits? "NVARCHAR" ("NVARCHAR".toList ++ '(' :: (n ++ [')'])) = some n := by
    unfold lengthDigits?
    rw [Text.after?_append]
    show (if !((n ++ [')']).takeWhile Text.isDigit).isEmpty && (n ++ [')']).dropWhile Text.isDigit == [')'] then
      some ((n ++ [')']).takeWhile Text.isDigit) else none) = _
    rw [hstop.takeWhile_append hdigit, hstop.dropWhile_append hdigit, if_pos]
    simpa using hn.ne_nil
  unfold limitLength lengthLimits
  rw [List.findSome?_cons]
  dsimp only
  rw [hdigits]
  dsimp only [Option.map_some]
  rw [toInt?_length hn hlimit]
  dsimp only
  unfold nvarchar
  by_cases hle : Numeral.ofDigits n ≤ 4000
  · rw [if_neg (by omega), if_pos hle]
    rfl
  · rw [if_pos (by omega), if_neg hle]
    rfl

theorem lengthened_of_paren (d : Direction) {type : Text} (h : '(' ∈ type) : d.lengthened type = type := by
  have hupper : '(' ∈ Text.upper type := List.mem_flatMap.2 ⟨'(', h, by decide⟩
  have hne : ∀ keyword : Text, '(' ∉ keyword → (Text.upper type == keyword) = false := by
    intro keyword hk
    rw [beq_eq_false_iff_ne]
    rintro rfl
    exact hk hupper
  unfold lengthened
  rw [hne _ (by decide), hne _ (by decide), Bool.or_false, Bool.and_false]
  rfl

/-- A column of varying characters with a length keeps the length in SQL Server up to the
limit and has none beyond. -/
theorem columnType?_varying {d : Direction} (hd : d.target = .sqlserver) {c : Column} {b : String}
    (hb : b ∈ varyingTypes) (hbase : c.baseType = b.toList) (hn : IsLength n)
    (hlimit : n.length ≤ Numeral.digitLimit) (hparams : c.typeParams = '(' :: (n ++ [')']))
    (harray : c.isArray = false) : (d.columnType? c).outcome = .ok (some (nvarchar n)) := by
  have hnames : ∀ b ∈ varyingTypes, b ∈ characterTypes ∧ tableValue? sqlserverTypes b.toList = some "NVARCHAR" ∧
      b.toList.isEmpty = false ∧ tableValue? widenings b.toList = none ∧
      ∀ n ∈ ["enum", "set", "bigserial", "smallserial", "serial"], (n.toList == b.toList) = false := by decide +kernel
  obtain ⟨hcharacter, hkeyword, hne, hwiden, hother⟩ := hnames b hb
  simp only [List.forall_mem_cons] at hother
  obtain ⟨henum, hset, hbig, hsmall, hserial, -⟩ := hother
  have hname : plainTypeName c = b.toList ++ '(' :: (n ++ [')']) := by
    simp only [plainTypeName, Column.hasBase, hbase, List.any_cons, List.any_nil, hbig, hsmall, hserial,
      Column.typeName, hparams, Bool.or_false, Bool.false_eq_true, if_false]
  have hwidening : d.widening? c = none := by
    unfold widening?
    rw [hbase, hwiden]
    exact ite_self _
  have htype : d.type ((d.widening? c).getD (plainTypeName c)) = "NVARCHAR".toList ++ '(' :: (n ++ [')']) := by
    obtain ⟨keyword, hvalue, htranslated⟩ := translateType_spelling (some d.source) .sqlserver hcharacter hn
      (spellsType_self hcharacter n)
    cases hvalue.symm.trans hkeyword
    rw [hwidening, hname, Direction.type, hd]
    exact htranslated
  have hscalar : (d.scalarType c).outcome = .ok (nvarchar n) := by
    rw [outcome_scalarType_of_type d c htype, if_pos hd, outcome_limitLength_nvarchar hn hlimit]
    refine congrArg Except.ok (d.lengthened_of_paren ?_)
    unfold nvarchar
    split
    · simp
    · decide
  unfold columnType?
  rw [hbase, hne, harray]
  simp only [Column.hasBase, hbase, List.any_cons, List.any_nil, henum, hset, Bool.or_false, Bool.false_eq_true,
    if_false]
  rw [Traced.outcome_bind, hscalar]
  rfl

/-- The clause of a column that does not count up is the column written as it is. -/
theorem clauses_plain {d : Direction} {s : Statement} {cs : List RenderedClause} (hcs : (d.clauses s).outcome = .ok cs)
    {i : Nat} {c : Column} (hc : s.columns[i]? = some c) (hcounts : c.countsUp = false) :
    ∃ key parts, cs[i]? = some (.column c parts) ∧ (d.column key false c).outcome = .ok parts := by
  obtain ⟨start, counting, key, columns, constraints, -, hplace, hcolumns, -, rfl⟩ := clauses_cases hcs
  have hcounting : (counting == some i) = false := by
    rw [beq_eq_false_iff_ne]
    rintro rfl
    rcases placeCounting_cases hplace with ⟨-, hnone, -⟩ | ⟨first, counts, -, -, hcase⟩
    · cases hnone
    · split at hcase
      · obtain ⟨hlt, hup, -⟩ := List.findIdx?_eq_some_iff_getElem.1 hcase.symm
        rw [List.getElem?_eq_getElem hlt] at hc
        rw [Option.some.inj hc, hcounts] at hup
        cases hup
      · cases hcase
  obtain ⟨hlength, hget⟩ := columnClauses_get hcolumns
  have hlt : i < columns.length := hlength ▸ (List.getElem?_eq_some_iff.1 hc).1
  obtain ⟨c', parts, hclause, hc', hparts⟩ := hget i columns[i] (List.getElem?_eq_getElem hlt)
  cases hc.symm.trans hc'
  rw [Nat.zero_add, hcounting] at hparts
  exact ⟨key, parts, by rw [List.getElem?_append_left hlt, List.getElem?_eq_getElem hlt, hclause], hparts⟩

end Direction

/-- A character type with a length that can be read as a number, in any spelling, becomes
the keyword of any target with that length. And a column of varying characters with such
a length, which neither counts up nor is an array, is written for SQL Server as NVARCHAR
with the length if that is at most 4000, and without a limit otherwise. -/
theorem character_length_carried (n : Text) (hn : IsLength n) (hlimit : n.length ≤ Numeral.digitLimit) :
    (∀ (source : Option Dialect) (target : Dialect), ∀ b ∈ characterTypes, ∀ t, SpellsType b n t →
      ∃ keyword, tableValue? target.profile.types b.toList = some keyword ∧
        translateType source target t = keyword.toList ++ '(' :: (n ++ [')'])) ∧
    ∀ (d : Direction) (c : Column), d.target = .sqlserver → (∃ b ∈ varyingTypes, c.baseType = b.toList) →
      c.typeParams = '(' :: (n ++ [')']) → c.countsUp = false → c.isArray = false →
      (d.columnType? c).outcome = .ok (some (nvarchar n)) ∧
      ∀ (s : Statement) (cs : List RenderedClause), (d.clauses s).outcome = .ok cs →
        ∀ i : Nat, s.columns[i]? = some c →
        ∃ parts, cs[i]? = some (.column c parts) ∧ ∀ type, ColumnPart.type type ∈ parts ↔ type = nvarchar n := by
  refine ⟨fun source target b hb t ht => translateType_spelling source target hb hn ht, ?_⟩
  rintro d c hd ⟨b, hb, hbase⟩ hparams hcounts harray
  have htype := Direction.columnType?_varying hd hb hbase hn hlimit hparams harray
  refine ⟨htype, fun s cs hcs i hc => ?_⟩
  obtain ⟨key, parts, hi, hparts⟩ := Direction.clauses_plain hcs hc hcounts
  -- A plain column writes the type that `columnType?` gives, and no other.
  have hwrites : d.WritesType false c (nvarchar n) := htype
  refine ⟨parts, hi, fun type => ?_⟩
  rw [Direction.type_mem_column hparts]
  exact ⟨fun h => h.unique hwrites, fun h => h ▸ hwrites⟩

/-- The longest length that SQL Server takes, in a spelling with white space. -/
theorem character_length_carried_limit :
    let n : Text := "04000".toList
    let d : Direction := { source := .postgresql, target := .sqlserver }
    let c : Column := { name := ['a'], baseType := "character varying".toList, typeParams := "(04000)".toList }
    let s : Statement := ⟨⟨none, ['t']⟩, false, false, [c], [], []⟩
    IsLength n ∧ n.length ≤ Numeral.digitLimit ∧
      translateType none .mysql " Character\tVARYING ( 04000\n) ".toList = "VARCHAR(04000)".toList ∧
      ∃ (cs : List RenderedClause) (parts : List ColumnPart), (d.clauses s).outcome = .ok cs ∧ cs[0]? = some (.column c parts) ∧
        ∀ type, ColumnPart.type type ∈ parts ↔ type = "NVARCHAR(04000)".toList := by
  intro n d c s
  have hn : IsLength n := ⟨by decide, by decide⟩
  have hlimit : n.length ≤ Numeral.digitLimit := by decide
  obtain ⟨htypes, hcolumns⟩ := character_length_carried n hn hlimit
  have hspells : SpellsType "character varying" n " Character\tVARYING ( 04000\n) ".toList := by
    refine ⟨[' '], "Character\tVARYING".toList, [' '], [' '], ['\n'], [' '], rfl, ?_, by decide, by decide,
      by decide, by decide, by decide⟩
    exact .more (s := "Character".toList) (g := ['\t']) (t := "VARYING".toList) (by decide) (by decide)
      (by decide) (.last (by decide))
  obtain ⟨keyword, hkeyword, htype⟩ := htypes none .mysql "character varying" (by decide) _ hspells
  have hvarchar : tableValue? Dialect.mysql.profile.types "character varying".toList = some "VARCHAR" := by
    decide +kernel
  cases hkeyword.symm.trans hvarchar
  let parts : List ColumnPart := [.name "[a]".toList, .type "NVARCHAR(04000)".toList]
  have hclauses : (d.clauses s).outcome = .ok [.column c parts] := eq_ok_of_toOption (by decide +kernel)
  obtain ⟨parts', hget, hparts⟩ := (hcolumns d c rfl ⟨"character varying", by decide, rfl⟩ rfl rfl rfl).2 s _
    hclauses 0 rfl
  exact ⟨hn, hlimit, htype, _, parts', hclauses, hget, hparts⟩

end TableDialects
