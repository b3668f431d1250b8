import TableDialects.FieldType
import TableDialects.Proofs.Text.Literal
import TableDialects.Proofs.Written.Tokens

/- Column types as they are written: a base name that all dialects know, in upper
   case, its parameters directly behind it, and possibly UNSIGNED. A type in this
   form is read as what it was written from (`TypeForm.IsSound.takeType`). -/
namespace TableDialects

/-- The base names, without parameters, for which every dialect has a keyword. -/
def coreTypes : List String :=
  (mysqlTypes.map Prod.fst).filter fun n =>
    !n.toList.contains '(' && [postgresqlTypes, sqliteTypes, sqlserverTypes].all fun table =>
      (table.map Prod.fst).contains n

theorem coreTypes_eq : coreTypes = [
    "bigint", "mediumint", "smallint", "tinyint", "integer", "int", "int2", "int4", "int8",
    "bigserial", "serial", "smallserial", "float", "float4", "float8", "real", "double precision",
    "double", "decimal", "numeric", "money", "smallmoney", "bit", "boolean", "bool", "char", "nchar",
    "character", "nvarchar", "varchar", "character varying", "tinytext", "mediumtext", "longtext",
    "text", "ntext", "citext", "jsonb", "json", "uuid", "uniqueidentifier", "xml", "binary",
    "varbinary", "blob", "tinyblob", "mediumblob", "longblob", "bytea", "image",
    "timestamp with time zone", "timestamp without time zone", "timestamptz", "timestamp",
    "datetime", "datetime2", "smalldatetime", "datetimeoffset", "date", "time",
    "time with time zone", "time without time zone", "year", "enum", "set"] := by
  unfold coreTypes
  rw [Text.toList_eq_ofBytes]
  decide +kernel

/-! ## Parameters -/

inductive Params where
  | absent
  | length (digits : Text)
  | precision (digits scale : Text)
  | word (w : Text)
  deriving DecidableEq

namespace Params

def isDigits (ds : Text) : Bool := !ds.isEmpty && ds.all Text.isDigit

/-- Whether the parameters have the form that types have: digits, or MAX. -/
def isSound : Params → Bool
  | absent => true
  | length ds => isDigits ds
  | precision ds es => isDigits ds && isDigits es
  | word w => w == "MAX".toList || w == "max".toList

def inner : Params → List Token
  | absent => []
  | length ds => [⟨.number, ds, 0, false⟩]
  | precision ds es => [⟨.number, ds, 0, false⟩, Token.mark ',', ⟨.number, es, 0, false⟩]
  | word w => [⟨.word, w, 0, false⟩]

def tokens : Params → List Token
  | absent => []
  | p => Token.mark '(' :: (p.inner ++ [Token.mark ')'])

/-- The parameters as a column keeps them. -/
def text : Params → Text
  | absent => []
  | p => Column.paramsText p.inner

theorem isDigits_cases {ds : Text} (h : isDigits ds = true) :
    ds ≠ [] ∧ ∀ c ∈ ds, Text.isDigit c = true := by
  unfold isDigits at h
  rw [Bool.and_eq_true, List.all_eq_true] at h
  refine ⟨?_, h.2⟩
  rintro rfl
  cases h.1

theorem printed_digits {ds : Text} (h : isDigits ds = true) (start : Nat) (spaced : Bool) :
    (⟨.number, ds, start, spaced⟩ : Token).Printed := by
  obtain ⟨hne, hd⟩ := isDigits_cases h
  show Scan.ReadsNumber ds []
  refine .plain (.whole hne hd) ⟨?_, fun _ => ?_⟩ rfl
  · exact fun c hc => nomatch hc
  · exact fun c hc => nomatch hc

theorem inner_no_parens (p : Params) : ∀ t ∈ p.inner, t.isOpen = false ∧ t.isClose = false := by
  intro t ht
  cases p with
  | absent => cases ht
  | length ds =>
    cases List.mem_singleton.1 ht
    exact ⟨rfl, rfl⟩
  | precision ds es =>
    simp only [inner, List.mem_cons, List.not_mem_nil, or_false] at ht
    rcases ht with rfl | rfl | rfl
    · exact ⟨rfl, rfl⟩
    · decide
    · exact ⟨rfl, rfl⟩
  | word w =>
    cases List.mem_singleton.1 ht
    exact ⟨rfl, rfl⟩

theorem whole_tokens (p : Params) : Whole p.tokens := by
  cases p with
  | absent => exact whole_nil
  | _ => exact whole_group (by decide) (by decide) (inner_no_parens _)

theorem steady_tokens (p : Params) : Steady p.tokens := by
  have hnil := steady_nil
  cases p with
  | absent => exact hnil
  | length ds => exact steady_cons rfl rfl (steady_cons rfl rfl (steady_cons rfl rfl hnil))
  | precision ds es =>
    exact steady_cons rfl rfl (steady_cons rfl rfl (steady_cons rfl rfl
      (steady_cons rfl rfl (steady_cons rfl rfl hnil))))
  | word w => exact steady_cons rfl rfl (steady_cons rfl rfl (steady_cons rfl rfl hnil))

theorem renderBehind_tokens (p : Params) : renderBehind Token.value p.tokens = p.text := by
  cases p <;> simp [tokens, text, inner, renderBehind, Column.paramsText, Token.mark]

theorem legible_tokens {p : Params} (h : p.isSound = true) : Legible p.tokens := by
  have hopen : (Token.mark '(').Printed := ⟨'(', by decide, rfl⟩
  have hclose : (Token.mark ')').Printed := ⟨')', by decide, rfl⟩
  have hcomma : (Token.mark ',').Printed := ⟨',', by decide, rfl⟩
  cases p with
  | absent => trivial
  | length ds => exact ⟨hopen, rfl, printed_digits h 0 false, rfl, hclose⟩
  | precision ds es =>
    rw [isSound, Bool.and_eq_true] at h
    exact ⟨hopen, rfl, printed_digits h.1 0 false, rfl, hcomma, rfl, printed_digits h.2 0 false, rfl,
      hclose⟩
  | word w =>
    have hw : isKeyword w = true := by
      rw [isSound, Bool.or_eq_true, beq_iff_eq, beq_iff_eq] at h
      rcases h with rfl | rfl <;> decide
    exact ⟨hopen, rfl, hw, rfl, hclose⟩

end Params

/-! ## Keywords that are not there -/

def Avoids (words : List String) (ts : List Token) : Prop :=
  ∀ t ∈ ts.head?, ∀ w ∈ words, t.isWord w.toList = false

theorem startsWithWords_append {words : List String} {ts us : List Token} (h : Avoids words us) :
    startsWithWords (words.map String.toList) (ts ++ us) =
      startsWithWords (words.map String.toList) ts := by
  induction words generalizing ts with
  | nil => simp [startsWithWords]
  | cons w words ih =>
    have hrest : Avoids words us := fun t ht v hv => h t ht v (List.mem_cons_of_mem w hv)
    cases ts with
    | nil =>
      cases us with
      | nil => rfl
      | cons u us =>
        show (u.isWord w.toList && _) = false
        rw [h u rfl w List.mem_cons_self]
        rfl
    | cons t ts =>
      show (t.isWord w.toList && startsWithWords (words.map String.toList) (ts ++ us)) =
        (t.isWord w.toList && startsWithWords (words.map String.toList) ts)
      rw [ih hrest]

theorem afterWords?_append {words : List String} {ts us : List Token} (h : Avoids words us) :
    afterWords? words (ts ++ us) = (afterWords? words ts).map (· ++ us) := by
  unfold afterWords?
  rw [startsWithWords_append h]
  split
  · rename_i hstart
    have hlen := startsWithWords_length hstart
    rw [List.length_map] at hlen
    rw [List.drop_append_of_le_length hlen]
    rfl
  · rfl

namespace Column

/-- The words that go on with a type or with CHARACTER. -/
def continuations : List String :=
  ["PRECISION", "VARYING", "CHARACTER", "CHAR", "WITH", "WITHOUT", "TIME", "ZONE", "SET"]

theorem takeSequence_append {candidates : List (List String)} {ts us : List Token}
    (h : ∀ words ∈ candidates, ∀ w ∈ words, w ∈ continuations) (hus : Avoids continuations us) :
    takeSequence candidates (ts ++ us) =
      ((takeSequence candidates ts).1, (takeSequence candidates ts).2 ++ us) := by
  induction candidates with
  | nil => rfl
  | cons words candidates ih =>
    have hwords : Avoids words us := fun t ht w hw => hus t ht w (h words List.mem_cons_self w hw)
    rw [takeSequence, takeSequence, afterWords?_append hwords]
    cases afterWords? words ts with
    | some rest => rfl
    | none => exact ih fun ws hws => h ws (List.mem_cons_of_mem words hws)

theorem typeContinuations_subset (first : Text) :
    ∀ words ∈ typeContinuations first, ∀ w ∈ words, w ∈ continuations := by
  unfold typeContinuations
  split
  · decide
  split
  · decide
  split
  · decide
  split
  · decide
  · exact fun words h => nomatch h

theorem takeTypeWords_append {t : Token} {ts us : List Token} (hw : t.kind = .word)
    (hus : Avoids continuations us) :
    takeTypeWords t (ts ++ us) = ((takeTypeWords t ts).1, (takeTypeWords t ts).2 ++ us) := by
  unfold takeTypeWords
  rw [hw]
  show ((Text.lower t.value :: (takeSequence _ (ts ++ us)).1), (takeSequence _ (ts ++ us)).2) = _
  rw [takeSequence_append (typeContinuations_subset _) hus]
  rfl

theorem startsType_append {t : Token} {ts us : List Token} (hus : Avoids continuations us) :
    startsType t (ts ++ us) = startsType t ts := by
  have hset : Avoids ["SET"] us := fun u hu w hw => hus u hu w (by
    rw [List.mem_singleton.1 hw]
    decide)
  unfold startsType
  rw [show startsWithWords ["SET".toList] (ts ++ us) = startsWithWords ["SET".toList] ts from
    startsWithWords_append hset]

end Column

/-! ## Types -/

structure TypeForm where
  base : String
  params : Params
  unsigned : Bool
  deriving DecidableEq

namespace TypeForm

def words (f : TypeForm) : List Token :=
  (Text.words (Text.upper f.base.toList)).map fun w => ⟨.word, w, 0, true⟩

def tokens (f : TypeForm) : List Token :=
  f.words ++ (f.params.tokens ++ if f.unsigned then [Token.keyword "UNSIGNED"] else [])

def text (f : TypeForm) : Text :=
  Text.upper f.base.toList ++ (f.params.text ++ if f.unsigned then " UNSIGNED".toList else [])

/-- A type of the common language; no parameters follow BOOLEAN. -/
structure IsSound (f : TypeForm) : Prop where
  base : f.base ∈ coreTypes
  params : f.params.isSound = true
  boolean : f.base = "boolean" → f.params = .absent

/-- What holds of every common base name, by trying all of them. -/
theorem words_coreTypes : ∀ b ∈ coreTypes, (match words ⟨b, .absent, false⟩ with
    | [] => false
    | t :: ts => Column.startsType t ts &&
      Column.takeTypeWords t ts == (Text.words b.toList, []) &&
      Text.join [' '] (Text.words b.toList) == b.toList &&
      renderBehind Token.value (t :: ts) == ' ' :: Text.upper b.toList &&
      (t :: ts).all (fun u => isKeyword u.value) &&
      ((t :: ts).getLast?.any fun u => u.spells "BOOLEAN") == (b == "boolean")) = true := by
  unfold words
  rw [coreTypes_eq, Text.toList_eq_ofBytes]
  decide +kernel

theorem words_core : ∀ b ∈ coreTypes, ∃ t ts, words ⟨b, .absent, false⟩ = t :: ts ∧
    t.kind = .word ∧ Column.startsType t ts = true ∧
    Column.takeTypeWords t ts = (Text.words b.toList, []) ∧
    Text.join [' '] (Text.words b.toList) = b.toList ∧
    renderBehind Token.value (t :: ts) = ' ' :: Text.upper b.toList ∧
    (∀ u ∈ t :: ts, isKeyword u.value = true) ∧
    ((t :: ts).getLast?.any fun u => u.spells "BOOLEAN") = (b == "boolean") := by
  intro b hb
  have h := words_coreTypes b hb
  cases hw : words ⟨b, .absent, false⟩ with
  | nil => rw [hw] at h; cases h
  | cons t ts =>
    rw [hw] at h
    simp only [Bool.and_eq_true, beq_iff_eq, List.all_eq_true, and_assoc] at h
    have hkind : t.kind = .word := by
      have ht : t ∈ words ⟨b, .absent, false⟩ := hw ▸ List.mem_cons_self
      obtain ⟨w, -, rfl⟩ := List.mem_map.1 ht
      rfl
    exact ⟨t, ts, rfl, hkind, h⟩

end TypeForm

def optionStarts : List String :=
  ["NOT", "NULL", "DEFAULT", "PRIMARY", "AUTO_INCREMENT", "AUTOINCREMENT", "IDENTITY", "UNIQUE"]

def OptionsAhead (ts : List Token) : Prop := ∀ t ∈ ts.head?, ∃ w ∈ optionStarts, t = Token.keyword w

namespace Params

theorem cases_tokens (p : Params) : p = .absent ∨
    p.tokens = Token.mark '(' :: (p.inner ++ [Token.mark ')']) ∧ p.text = Column.paramsText p.inner := by
  cases p with
  | absent => exact .inl rfl
  | _ => exact .inr ⟨rfl, rfl⟩

theorem takeParams (p : Params) (words : List Text) {rest : List Token}
    (hrest : Avoids Column.continuations rest) (hopen : startsOpen rest = false) :
    Column.takeParams words (p.tokens ++ rest) = .ok ((p.text, []), rest) := by
  have hzone : Column.takeSequence Column.zoneSuffixes rest = ([], rest) := by
    have happend : Column.takeSequence Column.zoneSuffixes ([] ++ rest) = ([], rest) :=
      Column.takeSequence_append (by decide) hrest
    exact happend
  rcases p.cases_tokens with rfl | ⟨htokens, htext⟩
  · unfold Column.takeParams
    rw [show Params.absent.tokens ++ rest = rest from rfl, hopen]
    rfl
  · have hgroup := takeGroup_closed (o := Token.mark '(') (c := Token.mark ')') (by decide) (by decide)
      (closed_of_no_parens p.inner_no_parens) rest
    have hlist : p.tokens ++ rest = Token.mark '(' :: (p.inner ++ Token.mark ')' :: rest) := by
      rw [htokens]
      simp
    unfold Column.takeParams
    rw [hlist, hgroup, htext, show startsOpen (Token.mark '(' :: _) = true from rfl, if_pos rfl]
    dsimp only
    rw [hzone]
    split <;> rfl

end Params

namespace TypeForm

theorem steady_words (f : TypeForm) : Steady f.words := by
  intro t ht
  obtain ⟨w, -, rfl⟩ := List.mem_map.1 ht
  exact ⟨rfl, rfl⟩

theorem whole_words (f : TypeForm) : Whole f.words := by
  unfold words
  induction Text.words (Text.upper f.base.toList) with
  | nil => exact whole_nil
  | cons w ws ih => exact (whole_token (t := ⟨.word, w, 0, true⟩) (fun h => nomatch h)).append ih

/-- What follows the parameters: UNSIGNED or nothing. -/
def sign (f : TypeForm) : List Token := if f.unsigned then [Token.keyword "UNSIGNED"] else []

theorem tokens_eq (f : TypeForm) : f.tokens = f.words ++ (f.params.tokens ++ f.sign) := rfl

theorem steady_tokens (f : TypeForm) : Steady f.tokens := by
  refine f.steady_words.append (f.params.steady_tokens.append ?_)
  split
  · exact steady_cons rfl rfl steady_nil
  · exact steady_nil

theorem whole_tokens (f : TypeForm) : Whole f.tokens := by
  refine f.whole_words.append (f.params.whole_tokens.append ?_)
  split
  · exact whole_token (by decide)
  · exact whole_nil

variable {f : TypeForm}

theorem IsSound.renderBehind (h : f.IsSound) :
    renderBehind Token.value f.tokens = ' ' :: f.text := by
  obtain ⟨t, ts, hw, -, -, -, -, hrender, -⟩ := words_core f.base h.base
  have hwords : TableDialects.renderBehind Token.value f.words = ' ' :: Text.upper f.base.toList :=
    (congrArg _ hw).trans hrender
  have hsign : TableDialects.renderBehind Token.value f.sign =
      if f.unsigned then " UNSIGNED".toList else [] := by
    unfold sign
    split <;> rfl
  rw [tokens_eq, renderBehind_append, renderBehind_append, hwords, f.params.renderBehind_tokens, hsign]
  rfl

theorem legible_words (h : f.base ∈ coreTypes) : Legible f.words ∧ Loose f.words := by
  obtain ⟨t, ts, hw, -, -, -, -, -, hkey, -⟩ := words_core f.base h
  have hsingle : ∀ ws : List Text, (∀ w ∈ ws, isKeyword w = true) →
      Legible (ws.flatMap fun w => [⟨.word, w, 0, true⟩]) ∧
        Loose (ws.flatMap fun w => [⟨.word, w, 0, true⟩]) := by
    intro ws hws
    refine legible_flatMap fun w hw => ⟨hws w hw, fun t ht => ?_⟩
    cases ht
    rfl
  have hwords := hsingle (Text.words (Text.upper f.base.toList)) (by
    intro w hin
    have : (⟨.word, w, 0, true⟩ : Token) ∈ t :: ts := hw ▸ List.mem_map_of_mem hin
    exact hkey _ this)
  rwa [← List.map_eq_flatMap] at hwords

theorem IsSound.legible (h : f.IsSound) : Legible f.tokens ∧ Loose f.tokens := by
  obtain ⟨hwords, hloose⟩ := legible_words h.base
  obtain ⟨t, ts, hw, -, -, -, -, -, -, hlast⟩ := words_core f.base h.base
  have hsign : Legible f.sign ∧ Loose f.sign := by
    unfold sign
    split
    · refine ⟨?_, fun u hu => ?_⟩
      · show isKeyword "UNSIGNED".toList = true
        decide
      · cases hu
        decide
    · exact ⟨trivial, fun u hu => nomatch hu⟩
  have hbehind : Legible (f.params.tokens ++ f.sign) :=
    (Params.legible_tokens h.params).append_loose hsign.1 hsign.2
  have hne : f.words ≠ [] := by
    rw [show f.words = t :: ts from hw]
    exact List.cons_ne_nil t ts
  rw [tokens_eq]
  refine ⟨hwords.append hbehind fun u hu v hv => ?_, fun u hu => ?_⟩
  · -- Behind the base name: a parenthesis, which BOOLEAN never has, or UNSIGNED.
    cases hp : f.params with
    | absent =>
      rw [hp] at hv
      exact Token.follows_of_isLoose (hsign.2 v hv) u
    | _ =>
      have hv' : v = Token.mark '(' := by
        rw [hp] at hv
        exact (Option.some.inj hv).symm
      have hbool : (f.base == "boolean") = false := by
        rw [beq_eq_false_iff_ne]
        intro hb
        rw [h.boolean hb] at hp
        cases hp
      rw [hbool, show t :: ts = f.words from hw.symm, hu, Option.any_some] at hlast
      rw [hv']
      unfold Token.follows
      rw [hlast]
      simp [Token.mark, Token.isMark, Token.isPunct]
  · cases hwords' : f.words with
    | nil => exact absurd hwords' hne
    | cons v vs =>
      rw [hwords'] at hu hloose
      exact hloose u hu

theorem avoids_behind {rest : List Token} (hrest : OptionsAhead rest) :
    Avoids Column.continuations (f.sign ++ rest) ∧
      Avoids Column.continuations (f.params.tokens ++ (f.sign ++ rest)) ∧
      startsOpen (f.sign ++ rest) = false := by
  have hkeyword : ∀ w ∈ "UNSIGNED" :: optionStarts, ∀ v ∈ Column.continuations,
      (Token.keyword w).isWord v.toList = false := by decide +kernel
  have hahead : ∀ t ∈ (f.sign ++ rest).head?, ∃ w ∈ "UNSIGNED" :: optionStarts, t = Token.keyword w := by
    unfold sign
    split
    · intro t ht
      exact ⟨"UNSIGNED", List.mem_cons_self, (Option.some.inj ht).symm⟩
    · intro t ht
      obtain ⟨w, hw, rfl⟩ := hrest t ht
      exact ⟨w, List.mem_cons_of_mem _ hw, rfl⟩
  have hsign : Avoids Column.continuations (f.sign ++ rest) := by
    intro t ht v hv
    obtain ⟨w, hw, rfl⟩ := hahead t ht
    exact hkeyword w hw v hv
  refine ⟨hsign, ?_, ?_⟩
  · cases hp : f.params with
    | absent => exact hsign
    | _ =>
      intro t ht v _
      cases ht
      rfl
  · cases hcase : f.sign ++ rest with
    | nil => rfl
    | cons t ts =>
      obtain ⟨w, -, rfl⟩ := hahead t (by rw [hcase]; rfl)
      rfl

theorem takeModifiers_sign {c : Column} (hc : c.unsigned = false) {rest : List Token}
    (hrest : OptionsAhead rest) :
    Column.takeModifiers c (f.sign ++ rest) = ({ c with unsigned := f.unsigned }, rest) := by
  have hmodifier : ∀ w ∈ optionStarts, (Token.keyword w).isWordOf Column.typeModifiers = false := by
    decide +kernel
  have hstop : ∀ c : Column, Column.takeModifiers c rest = (c, rest) := by
    intro c
    cases rest with
    | nil => rfl
    | cons t rest =>
      obtain ⟨w, hw, rfl⟩ := hrest t rfl
      rw [Column.takeModifiers, hmodifier w hw]
      rfl
  have hunsigned : (Token.keyword "UNSIGNED").isWordOf Column.typeModifiers = true := by decide
  have hupper : ((Token.keyword "UNSIGNED").upper == "UNSIGNED".toList) = true := by decide
  unfold sign
  cases hu : f.unsigned with
  | true =>
    rw [if_pos rfl, List.cons_append, List.nil_append, Column.takeModifiers, if_pos hunsigned, hstop, hc,
      hupper]
    rfl
  | false =>
    rw [if_neg Bool.false_ne_true, List.nil_append, hstop, ← hc]

theorem IsSound.takeType (h : f.IsSound) (name : Text) {rest : List Token} (hrest : OptionsAhead rest) :
    Column.takeType name (f.tokens ++ rest) =
      .ok ({ name := name
             rawType := f.base.toList ++ f.params.text
             baseType := f.base.toList
             typeParams := f.params.text
             unsigned := f.unsigned }, rest) := by
  obtain ⟨t, ts, hw, hkind, hstarts, htake, hjoin, -, -, -⟩ := words_core f.base h.base
  obtain ⟨hsign, hbehind, hopen⟩ := avoids_behind (f := f) hrest
  have htokens : f.tokens ++ rest = t :: (ts ++ (f.params.tokens ++ (f.sign ++ rest))) := by
    rw [tokens_eq, show f.words = t :: ts from hw]
    simp
  have hparams := Params.takeParams f.params (Text.words f.base.toList) hsign hopen
  rw [htokens]
  unfold Column.takeType
  dsimp only
  rw [if_pos ((Column.startsType_append hbehind).trans hstarts), Column.takeTypeWords_append hkind hbehind,
    htake]
  dsimp only
  rw [List.nil_append, hparams]
  dsimp only
  rw [takeModifiers_sign rfl hrest, hjoin]
  simp [hjoin]

end TypeForm
end TableDialects
