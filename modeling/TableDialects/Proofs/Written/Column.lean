import TableDialects.Proofs.Written.Type
import TableDialects.Translate.Statement

/- Columns as they are written: a name in quotes, a type and options. Each option
   is read as itself in front of further options (`ColumnOption.IsPlain.read`),
   hence a written column as the column it was written from
   (`ColumnForm.IsSound.ofTokens`). -/
namespace TableDialects

/-! ## Literals -/

/-- The token is a value that a default may have: a number, a string literal or a
truth value. -/
def Token.IsValue (t : Token) : Prop :=
  match t.kind with
  | .number => Scan.ReadsNumber t.value []
  | .string => IsLiteral t.value
  | .word => t.value = "TRUE".toList ∨ t.value = "FALSE".toList
  | _ => False

namespace Token.IsValue
variable {t : Token}

theorem printed (h : t.IsValue) : t.Printed := by
  obtain ⟨kind, value, start, spaced⟩ := t
  cases kind with
  | number => exact h
  | string => exact h
  | word =>
    show isKeyword value = true
    rcases h with rfl | rfl <;> decide
  | ident => cases h
  | punct => cases h
  | op => cases h

theorem kind_ne_punct (h : t.IsValue) : t.kind ≠ .punct := by
  intro hk
  unfold IsValue at h
  rw [hk] at h
  cases h

theorem widen (h : t.IsValue) : t.widen.IsValue := by
  obtain ⟨kind, value, start, spaced⟩ := t
  cases kind with
  | string => exact IsLiteral.widened h
  | _ => exact h

theorem isOpen (h : t.IsValue) : t.isOpen = false := by
  unfold Token.isOpen Token.isPunct
  rw [beq_eq_false_iff_ne.2 h.kind_ne_punct]
  rfl

end Token.IsValue

/-! ## Options -/

namespace ColumnOption

def countingKeyword : Dialect → String
  | .sqlite => "AUTOINCREMENT"
  | .sqlserver => "IDENTITY(1,1)"
  | _ => "AUTO_INCREMENT"

def countingTokens : Dialect → List Token
  | .sqlserver => Token.keyword "IDENTITY" :: (Params.precision ['1'] ['1']).tokens
  | d => [Token.keyword (countingKeyword d)]

def tokens (d : Dialect) : ColumnOption → List Token
  | .notNull => [Token.keyword "NOT", Token.keyword "NULL"]
  | .null => [Token.keyword "NULL"]
  | .default ts => Token.keyword "DEFAULT" :: ts
  | .autoIncrement => countingTokens d
  | .primaryKey => [Token.keyword "PRIMARY", Token.keyword "KEY"]
  | .unique => [Token.keyword "UNIQUE"]
  | _ => []

def part (d : Dialect) : ColumnOption → ColumnPart
  | .notNull => .notNull
  | .null => .null
  | .default ts => .default (renderTokens ts)
  | .autoIncrement => .autoIncrement (countingKeyword d)
  | .primaryKey => .primaryKey
  | .unique => .unique
  | _ => .extra []

/-- The option is one that every dialect writes; a default is a single value. -/
def IsPlain : ColumnOption → Prop
  | .default ts => ∃ t : Token, ts = [t] ∧ t.IsValue ∧ t.start = 0 ∧ t.spaced = true
  | .notNull => True
  | .null => True
  | .autoIncrement => True
  | .primaryKey => True
  | .unique => True
  | _ => False

def widen : ColumnOption → ColumnOption
  | .default ts => .default (ts.map Token.widen)
  | o => o

variable {o : ColumnOption}

theorem IsPlain.widen (h : o.IsPlain) : o.widen.IsPlain := by
  cases o with
  | default ts =>
    obtain ⟨t, rfl, hv, hstart, hspaced⟩ := h
    refine ⟨t.widen, rfl, hv.widen, ?_, by rw [Token.spaced_widen, hspaced]⟩
    unfold Token.widen
    split <;> exact hstart
  | _ => exact h

theorem widen_tokens (d : Dialect) (o : ColumnOption) :
    (o.tokens d).map Token.widen = o.widen.tokens d := by
  cases o with
  | default ts => rfl
  | autoIncrement => cases d <;> rfl
  | _ => rfl

theorem IsPlain.bare_tokens (d : Dialect) (h : o.IsPlain) : TableDialects.bare (o.tokens d) = o.tokens d := by
  cases o with
  | default ts =>
    obtain ⟨t, rfl, -, hstart, -⟩ := h
    obtain ⟨kind, value, start, spaced⟩ := t
    cases show start = 0 from hstart
    rfl
  | autoIncrement => cases d <;> rfl
  | _ => rfl

theorem IsPlain.bare (h : o.IsPlain) : o.bare = o := by
  cases o with
  | default ts =>
    have := h.bare_tokens .mysql
    exact congrArg ColumnOption.default (List.cons.inj this).2
  | check ts => cases h
  | onUpdate ts => cases h
  | other ts => cases h
  | _ => rfl

theorem IsPlain.whole (d : Dialect) (h : o.IsPlain) : Whole (o.tokens d) := by
  have hkeyword : ∀ w, Whole [Token.keyword w] := fun w => whole_token fun h => nomatch h
  cases o with
  | notNull => exact (hkeyword "NOT").append (hkeyword "NULL")
  | null => exact hkeyword _
  | default ts =>
    obtain ⟨t, rfl, hv, -⟩ := h
    exact (hkeyword "DEFAULT").append (whole_token hv.kind_ne_punct)
  | autoIncrement =>
    cases d with
    | sqlserver => exact (hkeyword "IDENTITY").append (Params.precision ['1'] ['1']).whole_tokens
    | _ => exact hkeyword _
  | primaryKey => exact (hkeyword "PRIMARY").append (hkeyword "KEY")
  | unique => exact hkeyword _
  | _ => cases h

theorem IsPlain.renderBehind (d : Dialect) (h : o.IsPlain) :
    renderBehind Token.value (o.tokens d) = ' ' :: (o.part d).render := by
  cases o with
  | default ts =>
    obtain ⟨t, rfl, -, -, hspaced⟩ := h
    show ' ' :: ("DEFAULT".toList ++ TableDialects.renderBehind Token.value [t]) = _
    rw [TableDialects.renderBehind, hspaced]
    rfl
  | autoIncrement => cases d <;> rfl
  | notNull => rfl
  | null => rfl
  | primaryKey => rfl
  | unique => rfl
  | _ => cases h

theorem IsPlain.starts (d : Dialect) (h : o.IsPlain) :
    ∃ w ∈ optionStarts, ∃ ts, o.tokens d = Token.keyword w :: ts := by
  cases o with
  | notNull => exact ⟨"NOT", by decide, _, rfl⟩
  | null => exact ⟨"NULL", by decide, _, rfl⟩
  | default ts => exact ⟨"DEFAULT", by decide, _, rfl⟩
  | autoIncrement =>
    cases d with
    | sqlite => exact ⟨"AUTOINCREMENT", by decide, _, rfl⟩
    | sqlserver => exact ⟨"IDENTITY", by decide, _, rfl⟩
    | _ => exact ⟨"AUTO_INCREMENT", by decide, _, rfl⟩
  | primaryKey => exact ⟨"PRIMARY", by decide, _, rfl⟩
  | unique => exact ⟨"UNIQUE", by decide, _, rfl⟩
  | _ => cases h

theorem IsPlain.legible (d : Dialect) (h : o.IsPlain) :
    Legible (o.tokens d) ∧ Loose (o.tokens d) := by
  refine ⟨?_, fun u hu => ?_⟩
  · have hkeyword : ∀ w : String, isKeyword w.toList = true → (Token.keyword w).Printed := fun w hw => hw
    cases o with
    | notNull => exact ⟨hkeyword _ (by decide), rfl, hkeyword _ (by decide)⟩
    | null => exact hkeyword _ (by decide)
    | default ts =>
      obtain ⟨t, rfl, hv, -, hspaced⟩ := h
      refine ⟨hkeyword _ (by decide), Token.follows_of_isLoose ?_ _, hv.printed⟩
      unfold Token.isLoose
      rw [hv.isOpen, hspaced, show t.isPunct [','] = false by
        unfold Token.isPunct
        rw [beq_eq_false_iff_ne.2 hv.kind_ne_punct]
        rfl]
      rfl
    | autoIncrement =>
      cases d with
      | sqlserver =>
        exact ⟨hkeyword _ (by decide), by decide, Params.legible_tokens (p := .precision ['1'] ['1']) (by decide)⟩
      | _ => exact hkeyword _ (by decide)
    | primaryKey => exact ⟨hkeyword _ (by decide), rfl, hkeyword _ (by decide)⟩
    | unique => exact hkeyword _ (by decide)
    | _ => cases h
  · obtain ⟨w, -, ts, htokens⟩ := h.starts d
    rw [htokens] at hu
    cases hu
    rfl

/-! ## Reading options -/

theorem expressionRest_ahead {rest : List Token} (h : OptionsAhead rest) :
    expressionRest 0 rest = ([], rest) := by
  have hstarts : ∀ w ∈ optionStarts, ((Token.keyword w).kind != .word) = false ∧
      ((Token.keyword w).upper == "ON".toList) = false ∧
      ((Token.keyword w).upper == "CHARACTER".toList) = false ∧
      (optionWords.any fun v => (Token.keyword w).upper == v.toList) = true := by decide +kernel
  cases rest with
  | nil => rfl
  | cons t rest =>
    obtain ⟨w, hw, rfl⟩ := h t rfl
    obtain ⟨hkind, hon, hcharacter, hoption⟩ := hstarts w hw
    have hstart : startsOption (Token.keyword w :: rest) = true := by
      rw [startsOption, hkind, hon, hcharacter, hoption]
      rfl
    rw [expressionRest, hstart]
    rfl

theorem afterInlineKey_ahead {rest : List Token} (h : OptionsAhead rest) :
    afterInlineKey rest = rest := by
  have hwords : ∀ w ∈ optionStarts, (Token.keyword w).isWordOf ["ASC", "DESC"] = false ∧
      (Token.keyword w).isWordOf indexOptions = false := by decide +kernel
  cases rest with
  | nil => rfl
  | cons t rest =>
    obtain ⟨w, hw, rfl⟩ := h t rfl
    obtain ⟨horder, hindex⟩ := hwords w hw
    show skipIndexOptions (if (Token.keyword w).isWordOf ["ASC", "DESC"] then _ else _) = _
    rw [horder, if_neg Bool.false_ne_true]
    exact List.dropWhile_cons_of_neg (by simp [hindex])

theorem afterKey_ahead {rest : List Token} (h : OptionsAhead rest) :
    (afterWords? ["KEY"] rest).getD rest = rest := by
  have hwords : ∀ w ∈ optionStarts, (Token.keyword w).isWord "KEY".toList = false := by decide +kernel
  have hkey : Avoids ["KEY"] rest := by
    intro t ht v hv
    obtain ⟨w, hw, rfl⟩ := h t ht
    rw [List.mem_singleton.1 hv]
    exact hwords w hw
  have hnone : afterWords? ["KEY"] ([] ++ rest) = none := afterWords?_append hkey
  rw [show afterWords? ["KEY"] rest = none from hnone]
  rfl

theorem IsPlain.read (d : Dialect) (h : o.IsPlain) {rest : List Token} (hrest : OptionsAhead rest) :
    ∃ t ts, o.tokens d = t :: ts ∧ ColumnOption.read t (ts ++ rest) = .ok (o, rest) := by
  cases o with
  | notNull => exact ⟨_, _, rfl, rfl⟩
  | null => exact ⟨_, _, rfl, rfl⟩
  | default ts =>
    obtain ⟨t, rfl, hv, -⟩ := h
    refine ⟨_, _, rfl, ?_⟩
    have htake : takeExpression (t :: rest) = .ok ([t], rest) := by
      rw [takeExpression, hv.isOpen, if_neg Bool.false_ne_true, expressionRest_ahead hrest]
    have hread : ColumnOption.read (Token.keyword "DEFAULT") ([t] ++ rest) =
        expression .default (t :: rest) := rfl
    rw [hread, expression, htake, Reading.mapValue_ok]
  | autoIncrement =>
    cases d with
    | sqlserver => exact ⟨_, _, rfl, rfl⟩
    | _ => exact ⟨_, _, rfl, rfl⟩
  | primaryKey =>
    refine ⟨_, _, rfl, ?_⟩
    have hread : ColumnOption.read (Token.keyword "PRIMARY") ([Token.keyword "KEY"] ++ rest) =
        .ok (.primaryKey, afterInlineKey rest) := rfl
    rw [hread, afterInlineKey_ahead hrest]
  | unique =>
    refine ⟨_, _, rfl, ?_⟩
    have hread : ColumnOption.read (Token.keyword "UNIQUE") ([] ++ rest) =
        .ok (.unique, (afterWords? ["KEY"] rest).getD rest) := rfl
    rw [hread, afterKey_ahead hrest]
  | _ => cases h

theorem optionsAhead_flatMap (d : Dialect) {os : List ColumnOption} (h : ∀ o ∈ os, o.IsPlain) :
    OptionsAhead (os.flatMap (tokens d)) := by
  cases os with
  | nil => exact fun t ht => nomatch ht
  | cons o os =>
    obtain ⟨w, hw, ts, htokens⟩ := (h o List.mem_cons_self).starts d
    intro t ht
    rw [List.flatMap_cons, htokens] at ht
    cases ht
    exact ⟨w, hw, rfl⟩

theorem readAll_flatMap (d : Dialect) {os : List ColumnOption} (h : ∀ o ∈ os, o.IsPlain) :
    readAll (os.flatMap (tokens d)) = .ok os := by
  induction os with
  | nil => rw [List.flatMap_nil, readAll]
  | cons o os ih =>
    have hrest : ∀ o ∈ os, o.IsPlain := fun p hp => h p (List.mem_cons_of_mem o hp)
    obtain ⟨t, ts, htokens, hread⟩ := (h o List.mem_cons_self).read d (optionsAhead_flatMap d hrest)
    rw [List.flatMap_cons, htokens, List.cons_append, readAll]
    split
    · rename_i e heq
      rw [hread] at heq
      cases heq
    · rename_i p left heq
      rw [hread] at heq
      cases heq
      rw [ih hrest]

end ColumnOption

/-! ## Columns -/

structure ColumnForm where
  name : Text
  type : TypeForm
  options : List ColumnOption

namespace ColumnForm

def tokens (d : Dialect) (f : ColumnForm) : List Token :=
  Token.quoted d f.name :: (f.type.tokens ++ f.options.flatMap (ColumnOption.tokens d))

def parts (d : Dialect) (f : ColumnForm) : List ColumnPart :=
  [.name (d.quote f.name), .type f.type.text] ++ f.options.map (ColumnOption.part d)

def column (f : ColumnForm) : Column :=
  f.options.foldl Column.apply
    { name := f.name
      rawType := f.type.base.toList ++ f.type.params.text
      baseType := f.type.base.toList
      typeParams := f.type.params.text
      unsigned := f.type.unsigned }

def widen (f : ColumnForm) : ColumnForm := { f with options := f.options.map ColumnOption.widen }

/-- The column has a plain name, a common type and plain options. -/
structure IsSound (f : ColumnForm) : Prop where
  name : isPlainName f.name = true
  type : f.type.IsSound
  options : ∀ o ∈ f.options, o.IsPlain

variable {f : ColumnForm}

theorem IsSound.widen (h : f.IsSound) : f.widen.IsSound := by
  refine ⟨h.name, h.type, fun o ho => ?_⟩
  obtain ⟨p, hp, rfl⟩ := List.mem_map.1 ho
  exact (h.options p hp).widen

theorem widen_tokens (d : Dialect) (f : ColumnForm) :
    (f.tokens d).map Token.widen = f.widen.tokens d := by
  have hoptions : (f.options.flatMap (ColumnOption.tokens d)).map Token.widen =
      (f.options.map ColumnOption.widen).flatMap (ColumnOption.tokens d) := by
    rw [List.map_flatMap, List.flatMap_map]
    simp only [ColumnOption.widen_tokens]
  rw [tokens, List.map_cons, List.map_append, f.type.steady_tokens.widen, hoptions]
  rfl

theorem IsSound.whole (d : Dialect) (h : f.IsSound) : Whole (f.tokens d) := by
  have hoptions : ∀ os : List ColumnOption, (∀ o ∈ os, o.IsPlain) →
      Whole (os.flatMap (ColumnOption.tokens d)) := by
    intro os hos
    induction os with
    | nil => exact whole_nil
    | cons o os ih =>
      rw [List.flatMap_cons]
      exact ((hos o List.mem_cons_self).whole d).append (ih fun p hp => hos p (List.mem_cons_of_mem o hp))
  have hname : Whole [Token.quoted d f.name] := whole_token fun h => nomatch h
  exact hname.append (f.type.whole_tokens.append (hoptions f.options h.options))

theorem IsSound.legible (d : Dialect) (h : f.IsSound) : Legible (f.tokens d) := by
  obtain ⟨htype, hloose⟩ := h.type.legible
  obtain ⟨hoptions, hopen⟩ := legible_flatMap fun o ho => (h.options o ho).legible d
  have hname : Legible [Token.quoted d f.name] := printed_quoted d h.name
  exact hname.append_loose (htype.append_loose hoptions hopen) (hloose.append hopen)

theorem IsSound.bare_tokens (d : Dialect) (h : f.IsSound) : bare (f.tokens d) = f.tokens d := by
  have hoptions : ∀ os : List ColumnOption, (∀ o ∈ os, o.IsPlain) →
      bare (os.flatMap (ColumnOption.tokens d)) = os.flatMap (ColumnOption.tokens d) := by
    intro os hos
    induction os with
    | nil => rfl
    | cons o os ih =>
      rw [List.flatMap_cons, bare_append, (hos o List.mem_cons_self).bare_tokens d,
        ih fun p hp => hos p (List.mem_cons_of_mem o hp)]
  rw [tokens, bare_cons, bare_append, f.type.steady_tokens.bare, hoptions f.options h.options]
  rfl

theorem IsSound.render (d : Dialect) (h : f.IsSound) (c : Column) :
    (RenderedClause.column c (f.parts d)).render = renderTokens (f.tokens d) := by
  have hjoin : ∀ (s : Text) (ss : List Text),
      Text.join [' '] (s :: ss) = s ++ ss.flatMap fun r => ' ' :: r := by
    intro s ss
    induction ss generalizing s with
    | nil => simp [Text.join]
    | cons r ss ih =>
      rw [Text.join, ih]
      · simp
      · exact List.cons_ne_nil r ss
  have hoptions : ∀ os : List ColumnOption, (∀ o ∈ os, o.IsPlain) →
      renderBehind Token.value (os.flatMap (ColumnOption.tokens d)) =
        ((os.map (ColumnOption.part d)).map ColumnPart.render).flatMap fun r => ' ' :: r := by
    intro os hos
    induction os with
    | nil => rfl
    | cons o os ih =>
      rw [List.flatMap_cons, renderBehind_append, (hos o List.mem_cons_self).renderBehind d,
        ih fun p hp => hos p (List.mem_cons_of_mem o hp)]
      rfl
  show Text.join [' '] ((f.parts d).map ColumnPart.render) =
    d.quote f.name ++ renderBehind Token.value (f.type.tokens ++ _)
  rw [renderBehind_append, h.type.renderBehind, hoptions f.options h.options, parts, List.map_append]
  exact hjoin _ _

/-- A written column is read as the column it was written from. -/
theorem IsSound.ofTokens (d : Dialect) (h : f.IsSound) :
    Clause.ofTokens (shapes (f.tokens d)) = .ok (.column f.column) := by
  have htail : shapes (f.tokens d) = (Token.quoted d f.name).tight ::
      (f.type.tokens ++ f.options.flatMap (ColumnOption.tokens d)) := by
    have := h.bare_tokens d
    rw [tokens, bare_cons] at this
    rw [tokens, shapes, (List.cons.inj this).2]
    rfl
  have hconstraint : ∀ ts, takeConstraint ((Token.quoted d f.name).tight :: ts) =
      .ok (none, (Token.quoted d f.name).tight :: ts) := fun _ => rfl
  have hident : (Token.quoted d f.name).tight.isIdentifier = true := 
    isIdentifier_quoted (transports_of_isPlainName d h.name)
  have hname : (Token.quoted d f.name).tight.name = f.name := 
    name_quoted (transports_of_isPlainName d h.name)
  have htype := h.type.takeType f.name (ColumnOption.optionsAhead_flatMap d h.options)
  have hbare : f.options.map ColumnOption.bare = f.options :=
    (List.map_congr_left fun o ho => (h.options o ho).bare).trans (List.map_id _)
  rw [htail]
  unfold Clause.ofTokens
  dsimp only
  rw [hconstraint]
  dsimp only
  unfold Column.read
  dsimp only
  rw [if_pos hident, hname, htype]
  dsimp only
  rw [ColumnOption.readAll_flatMap d h.options]
  dsimp only [Except.map]
  rw [Column.foldl_apply_bare, hbare]
  rfl

end ColumnForm
end TableDialects
